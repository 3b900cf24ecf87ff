import RadarTimeline.Proofs.Console.Loaders

namespace RadarTimeline.Console

variable {α : Type} {base entry : Nat} {st : State} {call : Call}

namespace Call

theorem modifyScope_follows {f : Scope → Scope}
    (h : ∀ st, Move call.scope base st (st.modifyScope call.scope f)) :
    Act.Follows call.scope base (call.modifyScope f) := fun st _ =>
  .of_ok (rfl : (call.modifyScope f).run st = .ok (.ok ()) (st.modifyScope call.scope f))
    (h st).trail

theorem setVariable_follows (name value : String) :
    Act.Follows call.scope base (call.setVariable name value) :=
  modifyScope_follows fun _ => .assigned name value

theorem define_follows (name parameters body : String) :
    Act.Follows call.scope base (call.define name parameters body) :=
  (Act.Follows.ofExcept _).bind fun _ => modifyScope_follows fun _ => .defined name _

variable (hrun : call.run.Follows)

include hrun

theorem runScript_follows (script : String) : Act.Follows call.scope base (call.runScript script) :=
  .lift (hrun call.scope base script _ _)

theorem evaluate_follows (expression : String) :
    Act.Follows call.scope base (call.evaluate expression) := by
  have hcontext : ContextFollows call.scope base
      { valueOf := fun name => variableValue call.scope name call.command.location
        runScript := fun script => bracketValue call.run call.scope script call.command.location
        fillIn := fun text => substitute call.run call.scope text call.command.location } :=
    ⟨fun name => variableValue_follows name _, fun script => bracketValue_follows hrun script _,
      fun text => substitute_follows hrun text _⟩
  exact (expression_follows hcontext expression).translate (fun _ => .pure _) fun fault => ⟨_, rfl⟩

theorem condition_follows (expression : String) :
    Act.Follows call.scope base (call.condition expression) :=
  (evaluate_follows hrun expression).bind fun _ => .ofExcept _

theorem runFile_follows (path : String) : Act.Follows call.scope base (call.runFile path) := by
  unfold runFile
  split
  · exact (Act.Quiet.logLanguage _ _).follows.bind fun _ => .pure _
  · exact (Act.Follows.lift (hrun call.scope base _ path 1)).bind fun _ => .pure _

omit hrun

theorem leave_quiet (c : Completion) : Act.Quiet (leave c) := by
  unfold leave
  split
  · exact .done
  · exact .give _
  · exact .pure _
  · exact .usage _

def finish (call : Call) (child : Nat) (c : Completion) : Act Completion := do
  let left := (← (Run.scope child : Run Scope)).state
  call.modifyState (·.merge left)
  leave c

theorem finish_run (child : Nat) (c : Completion) (st : State) :
    (call.finish child c).run st = (leave c).run (st.closeCall call.scope child) := by
  have hclose : (st.modifyScope call.scope fun sc =>
      { sc with state := sc.state.merge (st.scope child).state }) = st.closeCall call.scope child :=
    st.modifyScope_congr rfl
  rw [← hclose]
  rfl

theorem procedure_run (call : Call) (p : Procedure) (args : List String) (entry : Nat)
    {bindings : List (String × String)} (h : p.bind? args = some bindings) (st : State) :
    (call.procedure p args entry).run st =
      ((liftM (call.run st.scopes.size p.body p.filename p.line) : Act Completion) >>=
        call.finish st.scopes.size).run
      (st.openCall call.scope entry s!"proc {p.name}" bindings) := by
  unfold procedure
  rw [h]
  exact Act.bind_of_ok (Act.lift_of_ok (Run.openChild_run ..))

variable {p : Procedure} {args : List String}

theorem procedure_follows (hrun : call.run.Follows) (hw : Within call.scope base st)
    (hb : base ≤ entry) (fresh : st.Fresh call.scope entry) :
    Act.FollowsFrom call.scope base st (call.procedure p args entry) := by
  cases hbind : p.bind? args with
  | none =>
    unfold procedure
    rw [hbind]
    exact (Act.Quiet.refuse _).follows st hw
  | some bindings =>
    have hproc := procedure_run call p args entry hbind st
    have hopen := Within.openCall st call.scope entry s!"proc {p.name}" bindings
    have hbody := hrun st.scopes.size 0 p.body p.filename p.line _ hopen
    cases hr : call.run st.scopes.size p.body p.filename p.line
        (st.openCall call.scope entry s!"proc {p.name}" bindings) with
    | ok c st₁ =>
      rw [Act.bind_of_ok (Act.lift_of_ok hr), finish_run] at hproc
      have hclose := Trail.call hb fresh _ bindings (hbody.ends hr) (.nil ..)
      exact .after hclose hproc ((leave_quiet c).follows _ (hclose.within hw))
    | error halt st₁ =>
      rw [Act.bind_of_halt (Act.lift_of_error hr)] at hproc
      refine ⟨?_, ?_, ?_⟩ <;> intro _ _ h <;> rw [hproc] at h <;> cases h
      exact .within (.nil ..) hb fresh _ bindings (hbody.halts hr)

theorem block_follows (hrun : call.run.Follows) (hw : Within call.scope base st) (hb : base ≤ entry)
    (fresh : st.Fresh call.scope entry) (words : List String) :
    Act.FollowsFrom call.scope base st (call.block words entry) := by
  refine (Act.Quiet.getScope.follows st hw).bind fun sc st₁ h => ?_
  cases h
  split
  · exact (Act.Quiet.usage _).follows st hw
  · exact procedure_follows hrun hw hb fresh

variable (hrun : call.run.Follows)

include hrun

theorem runBody_follows (body : String) : Act.Follows call.scope base (call.runBody body) :=
  (runScript_follows hrun body).bind fun _ => .pure _

theorem whileLoop_follows (test body : String) (remaining : Nat) :
    Act.Follows call.scope base (call.whileLoop test body remaining) := by
  induction remaining with
  | zero =>
    refine (condition_follows hrun test).bind fun b => ?_
    split
    · exact (Act.Quiet.usage _).follows
    · exact Act.Quiet.done.follows
  | succ remaining ih =>
    refine (condition_follows hrun test).bind fun b => ?_
    split
    · refine (runBody_follows hrun body).bind fun verdict => ?_
      split
      · exact ih
      · exact Act.Quiet.done.follows
      · exact .pure _
    · exact Act.Quiet.done.follows

theorem forLoop_follows (test next body : String) (remaining : Nat) :
    Act.Follows call.scope base (call.forLoop test next body remaining) := by
  induction remaining with
  | zero =>
    refine (condition_follows hrun test).bind fun b => ?_
    split
    · exact (Act.Quiet.usage _).follows
    · exact Act.Quiet.done.follows
  | succ remaining ih =>
    refine (condition_follows hrun test).bind fun b => ?_
    split
    · refine (runBody_follows hrun body).bind fun verdict => ?_
      split
      · refine (runScript_follows hrun next).bind fun c => ?_
        split
        · exact ih
        · exact .pure _
      · exact Act.Quiet.done.follows
      · exact .pure _
    · exact Act.Quiet.done.follows

theorem foreachLoop_follows (name body : String) (remaining : Nat) (elements : List String) :
    Act.Follows call.scope base (call.foreachLoop name body remaining elements) := by
  induction elements generalizing remaining with
  | nil =>
    unfold foreachLoop
    exact Act.Quiet.done.follows
  | cons element rest ih =>
    cases remaining with
    | zero => exact (Act.Quiet.usage _).follows
    | succ remaining =>
      refine (setVariable_follows name element).bind fun _ => ?_
      refine (runBody_follows hrun body).bind fun verdict => ?_
      split
      · exact ih remaining
      · exact Act.Quiet.done.follows
      · exact .pure _

end Call

theorem Branches.run_follows (hrun : call.run.Follows) (b : Branches) :
    Act.Follows call.scope base (b.run call) := by
  induction b with
  | test condition body otherwise ih =>
    refine (Call.condition_follows hrun condition).bind fun b => ?_
    split
    · exact Call.runScript_follows hrun body
    · exact ih
  | script body => exact Call.runScript_follows hrun body
  | nothing => exact Act.Quiet.done.follows
  | fault f => exact (Act.Quiet.usage f).follows

namespace Builtin

variable {args : List String}

theorem runSet_follows : Act.Follows call.scope base (runSet call args) := by
  unfold runSet
  split
  · refine Act.Quiet.getScope.follows.bind fun sc => ?_
    split
    · exact (Act.Quiet.give _).follows
    · exact (Act.Quiet.usage _).follows
  · exact (Call.setVariable_follows _ _).bind fun _ => (Act.Quiet.give _).follows
  · exact (Act.Quiet.refuse _).follows

theorem increase_follows (name : String) {increment : Act Float} (h : Act.Quiet increment) :
    Act.Follows call.scope base (increase call name increment) := by
  refine Act.Quiet.getScope.follows.bind fun sc => ?_
  refine (readInteger_quiet _).follows.bind fun current => ?_
  refine h.follows.bind fun n => (Call.setVariable_follows _ _).bind fun _ => ?_
  exact (Act.Quiet.give _).follows

theorem runIncr_follows : Act.Follows call.scope base (runIncr call args) := by
  unfold runIncr
  split
  · exact increase_follows _ (.pure 1)
  · exact increase_follows _ (readInteger_quiet _)
  · exact (Act.Quiet.refuse _).follows

theorem alter_follows (name : String) (f : String → String) :
    Act.Follows call.scope base (alter call name f) :=
  Act.Quiet.getScope.follows.bind fun _ => (Call.setVariable_follows _ _).bind fun _ =>
    (Act.Quiet.give _).follows

theorem runAppend_follows : Act.Follows call.scope base (runAppend call args) := by
  unfold runAppend
  split
  · exact alter_follows _ _
  · exact (Act.Quiet.refuse _).follows

theorem runLappend_follows : Act.Follows call.scope base (runLappend call args) := by
  unfold runLappend
  split
  · exact alter_follows _ _
  · exact (Act.Quiet.refuse _).follows

theorem runInfo_quiet : Act.Quiet (runInfo call args) := by
  unfold runInfo
  split
  · exact Act.Quiet.getScope.bind fun _ => .give _
  · exact .usage _

theorem runProc_follows : Act.Follows call.scope base (runProc call args) := by
  unfold runProc
  split
  · exact (Call.define_follows _ _ _).bind fun _ => Act.Quiet.done.follows
  · exact (Act.Quiet.refuse _).follows

theorem runPuts_quiet : Act.Quiet (runPuts args) := by
  unfold runPuts
  dsimp only
  split
  · exact (Act.Quiet.printed _).bind fun _ => .done
  · exact (Act.Quiet.printed _).bind fun _ => .done
  · exact .refuse _

theorem runLindex_quiet : Act.Quiet (runLindex args) := by
  unfold runLindex
  split
  · exact .give _
  · exact (Act.Quiet.listElements _).bind fun _ => (readIndex_quiet _ _).bind fun _ => .give _
  · exact .refuse _

theorem runJoin_quiet : Act.Quiet (runJoin args) := by
  unfold runJoin
  split
  · exact (Act.Quiet.listElements _).bind fun _ => .give _
  · exact (Act.Quiet.listElements _).bind fun _ => .give _
  · exact .refuse _

theorem runSplit_quiet : Act.Quiet (runSplit args) := by
  unfold runSplit
  split
  · exact .give _
  · exact .give _
  · exact .refuse _

theorem stringCommand_quiet : Act.Quiet (stringCommand args) := by
  unfold stringCommand
  split
  · split <;> first | exact .give _ | exact .refuse _ | exact .usage _
  · exact .refuse _

variable (hrun : call.run.Follows)

include hrun

theorem runFor_follows : Act.Follows call.scope base (runFor call args) := by
  unfold runFor
  split
  · refine (Call.runScript_follows hrun _).bind fun c => ?_
    split
    · exact Call.forLoop_follows hrun _ _ _ _
    · exact .pure _
  · exact (Act.Quiet.refuse _).follows

theorem runWhile_follows : Act.Follows call.scope base (runWhile call args) := by
  unfold runWhile
  split
  · exact Call.whileLoop_follows hrun _ _ _
  · exact (Act.Quiet.refuse _).follows

theorem runForeach_follows : Act.Follows call.scope base (runForeach call args) := by
  unfold runForeach
  split
  · exact (Act.Quiet.listElements _).follows.bind fun _ => Call.foreachLoop_follows hrun _ _ _ _
  · exact (Act.Quiet.refuse _).follows

theorem runSubst_follows : Act.Follows call.scope base (runSubst call args) := by
  unfold runSubst
  split
  · exact (Act.Follows.lift (substitute_follows hrun _ _)).bind fun _ => (Act.Quiet.give _).follows
  · exact (Act.Quiet.refuse _).follows

theorem runSource_follows : Act.Follows call.scope base (runSource call args) := by
  unfold runSource
  split
  · exact Call.runFile_follows hrun _
  · exact (Act.Quiet.refuse _).follows

/-- Every built-in command follows a trail in its scope. -/
theorem run_follows (b : Builtin) : Act.Follows call.scope base (b.run call args) := by
  cases b with
  | set => exact runSet_follows
  | incr => exact runIncr_follows
  | append => exact runAppend_follows
  | lappend => exact runLappend_follows
  | global => exact (Act.Quiet.logLanguage _ _).follows.bind fun _ => Act.Quiet.done.follows
  | info => exact runInfo_quiet.follows
  | expr =>
    unfold run
    dsimp only
    split
    · exact (Act.Quiet.refuse _).follows
    · exact (Call.evaluate_follows hrun _).bind fun _ => (Act.Quiet.give _).follows
  | ifElse => exact Branches.run_follows hrun _
  | for_ => exact runFor_follows hrun
  | while_ => exact runWhile_follows hrun
  | foreach => exact runForeach_follows hrun
  | return_ => exact .pure _
  | break_ => exact .pure _
  | continue_ => exact .pure _
  | proc => exact runProc_follows
  | eval =>
    unfold run
    dsimp only
    split
    · exact (Act.Quiet.refuse _).follows
    · exact Call.runScript_follows hrun _
  | subst => exact runSubst_follows hrun
  | source => exact runSource_follows hrun
  | exec => exact (Act.Quiet.usage _).follows
  | puts => exact runPuts_quiet.follows
  | list => exact (Act.Quiet.give _).follows
  | llength =>
    unfold run
    dsimp only
    split
    · exact (Act.Quiet.listElements _).follows.bind fun _ => (Act.Quiet.give _).follows
    · exact (Act.Quiet.refuse _).follows
  | lindex => exact runLindex_quiet.follows
  | join => exact runJoin_quiet.follows
  | split => exact runSplit_quiet.follows
  | string => exact stringCommand_quiet.follows

end Builtin

namespace Operator

/-- Operators that run scripts or ask for a jump. -/
def Steers : Operator → Prop
  | .runexperiment | .callblock | .gotoblock | .loadfile => True
  | _ => False

/-- Most operators that do not load only show something. -/
theorem run_quiet (call : Call) (args : List String) {o : Operator} (hload : ¬ o.Loads)
    (hsteer : ¬ o.Steers) (hblock : o ≠ .block) : Act.Quiet (o.run call args) := by
  cases o with
  | selectlo | loadfrequency | loadfilter | loadradar | startdata =>
    exact absurd (by simp [Loads]) hload
  | runexperiment | callblock | gotoblock | loadfile => exact absurd trivial hsteer
  | block => exact absurd rfl hblock
  | argv | isSite => exact (getState_quiet call).bind fun _ => .give _
  | armradar => exact armRadar_quiet call args
  | startradar => exact startRadar_quiet call args
  | stopradar => exact stopRadar_quiet call args
  | isradar => exact testSite_quiet call args
  | getstarttime => exact getStartTime_quiet call args
  | readfrequencyfile => exact readFrequencyFile_quiet call args
  | setfrequency => exact setFrequency_quiet call args
  | setpanelpath => exact setPanelPath_quiet call args
  | disablerecording => exact disableRecording_quiet call args
  | writeexperimentfile => exact writeExperimentFile_quiet call args
  | upar => exact userParameter_quiet call args
  | timestamp => exact writeTimestamp_quiet args
  | sync | transferlo | stopdata | disp | logbook | mount => exact tell_quiet call _ _

variable {args : List String}

theorem defineBlock_follows : Act.Follows call.scope base (defineBlock call args) := by
  unfold defineBlock
  split
  · exact (Call.define_follows _ _ _).bind fun _ =>
      ((Act.Quiet.log _ _).bind fun _ => .done).follows
  · exact (Act.Quiet.refuse _).follows

theorem followJumps_run (remaining : Nat) (words : List String) (h : call.scope < st.scopes.size) :
    (followJumps call (remaining + 1) (.jump words)).run st =
      (call.block words (st.scope call.scope).log.size >>= followJumps call remaining).run
        ((st.withEntry call.scope words).record (.jump call.scope words)) := by
  rw [followJumps]
  exact Act.bind_of_ok (Act.lift_of_ok (Run.addEntry_run words h))

variable (hrun : call.run.Follows)

include hrun

theorem openBlock_follows (hw : Within call.scope base st) (hb : base ≤ call.entry)
    (fresh : st.Fresh call.scope call.entry) :
    Act.FollowsFrom call.scope base st (openBlock call args) := by
  have hrequire : Act.Quiet (Call.require args 1 "callblock name ?arg ...?") := .require ..
  refine (hrequire.follows st hw).bind fun _ st₁ h => ?_
  have hw₁ := (hrequire.shows h).trail.within hw
  have hlog (message : String) : Act.Quiet (logInfo call message) := .log ..
  refine ((hlog _).follows st₁ hw₁).bind fun _ st₂ h' => ?_
  have hshows := (hlog _).shows h'
  refine Call.block_follows hrun (hshows.trail.within hw₁) hb ?_ args
  exact fresh.of_scopes (hshows.scopes.trans (hrequire.shows h).scopes)

theorem followJumps_follows (remaining : Nat) (c : Completion) :
    Act.Follows call.scope base (followJumps call remaining c) := by
  induction remaining generalizing c with
  | zero =>
    cases c with
    | jump words => exact (Act.Quiet.usage _).follows
    | _ => exact .pure _
  | succ remaining ih =>
    cases c with
    | jump words =>
      intro st hw
      have hjump : Trail call.scope base st _ := (Move.jumped words).trail
      refine .after hjump (followJumps_run remaining words hw.lt_size) ?_
      have hblock :=
        Call.block_follows hrun (hjump.within hw) hw.le_log (.withEntry hw.lt_size) words
      exact hblock.bind fun c st₁ h => ih c st₁ ((hblock.ends h).within (hjump.within hw))
    | _ => exact .pure _

theorem runExperiment_follows : Act.Follows call.scope base (runExperiment call args) := by
  refine (Act.Quiet.require args 1 _).follows.bind fun _ => ?_
  refine (Act.Follows.ofExcept _).bind fun file => ?_
  refine (Call.modifyScope_follows fun st => ?_).bind fun _ => ?_
  · have hsupply : st.withSession call.scope { st.session call.scope with args := args.drop 2 } =
        st.modifyScope call.scope fun sc =>
        { sc with state := { sc.state with args := args.drop 2 } } :=
      st.modifyScope_congr rfl
    exact hsupply ▸ .supplied (args.drop 2)
  · refine (Act.Quiet.log _ _).follows.bind fun _ => ?_
    refine (Act.Follows.lift (hrun call.scope base _ _ 1)).bind fun c => ?_
    exact followJumps_follows hrun _ c

/-- An operator that does not load follows a trail in its scope. -/
theorem run_follows {o : Operator} (ho : ¬ o.Loads) (hw : Within call.scope base st)
    (hb : base ≤ call.entry) (fresh : st.Fresh call.scope call.entry) :
    Act.FollowsFrom call.scope base st (o.run call args) := by
  cases o with
  | runexperiment => exact runExperiment_follows hrun st hw
  | block => exact defineBlock_follows st hw
  | callblock => exact openBlock_follows hrun hw hb fresh
  | gotoblock => exact (gotoBlock_quiet call args).follows st hw
  | loadfile =>
    cases args with
    | nil => exact (Act.Quiet.refuse _).follows st hw
    | cons path rest => exact Call.runFile_follows hrun path st hw
  | _ => exact (run_quiet call args ho (fun h => h) nofun).follows st hw

end Operator

end RadarTimeline.Console
