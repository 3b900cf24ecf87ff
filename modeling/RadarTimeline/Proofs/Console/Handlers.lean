import RadarTimeline.Proofs.Console.Commands
import RadarTimeline.Proofs.Console.Nesting
import RadarTimeline.Proofs.Console.Unwinding

namespace RadarTimeline.Console

variable {α : Type}

namespace Call

variable {Q : ScriptError → State → Prop} {call : Call} {run' : Runner}
  (h : Unwinding Q call.scope call.command.location call.run run')

include h

theorem runScript_unwinds (script : String) :
    Act.Unwinds Q (call.runScript script) ((call.nesting run').runScript script) :=
  .lift (h.nested ..)

theorem evaluate_unwinds (expression : String) :
    Act.Unwinds Q (call.evaluate expression) ((call.nesting run').evaluate expression) := by
  have hcontext : ContextUnwinds Q
      { valueOf := fun name => variableValue call.scope name call.command.location
        runScript := fun script => bracketValue call.run call.scope script call.command.location
        fillIn := fun text => substitute call.run call.scope text call.command.location }
      { valueOf := fun name => variableValue call.scope name call.command.location
        runScript := fun script => bracketValue run' call.scope script call.command.location
        fillIn := fun text => substitute run' call.scope text call.command.location } :=
    ⟨h.variableValue, h.bracketValue, h.substitute⟩
  refine (expression_unwinds hcontext expression).translate fun r => ?_
  cases r with
  | ok value => exact .of_quiet (.pure value)
  | error fault => exact .of_quiet (.throw _)

theorem condition_unwinds (expression : String) :
    Act.Unwinds Q (call.condition expression) ((call.nesting run').condition expression) :=
  (evaluate_unwinds h expression).bind fun _ => .ofExcept _

theorem runFile_unwinds (path : String) :
    Act.Unwinds Q (call.runFile path) ((call.nesting run').runFile path) := by
  unfold runFile
  rw [nesting]
  cases call.setup.files.read path with
  | error fault => exact .of_quiet ((Act.Quiet.logLanguage _ _).bind fun _ => .done)
  | ok text => exact (Act.Unwinds.lift (h.nested ..)).bind fun _ => .pure _

theorem procedure_unwinds (p : Procedure) (args : List String) (entry : Nat) :
    Act.Unwinds Q (call.procedure p args entry) ((call.nesting run').procedure p args entry) := by
  unfold procedure
  rw [nesting]
  cases p.bind? args with
  | none => exact .of_quiet (.refuse _)
  | some bindings =>
    refine (Act.Unwinds.of_steady (.of_run fun st => ⟨.ok _, _, rfl⟩)).bind fun child => ?_
    refine (Act.Unwinds.of_steady (.of_run fun st => ⟨.ok _, _, rfl⟩)).bind fun _ => ?_
    refine (Act.Unwinds.lift (h.nested ..)).bind fun c => .of_steady ?_
    refine (Act.Steady.of_run fun st => ⟨.ok _, _, rfl⟩).bind fun left => ?_
    exact (Act.Steady.modifyScope _).bind fun _ => .of_quiet (leave_quiet c)

theorem block_unwinds (words : List String) (entry : Nat) :
    Act.Unwinds Q (call.block words entry) ((call.nesting run').block words entry) := by
  refine (Act.Unwinds.of_quiet .getScope).bind fun sc => ?_
  cases sc.procedure? (words.headD "") with
  | none => exact .of_quiet (.usage _)
  | some p => exact procedure_unwinds h p words.tail entry

theorem runBody_unwinds (body : String) :
    Act.Unwinds Q (call.runBody body) ((call.nesting run').runBody body) :=
  (runScript_unwinds h body).bind fun _ => .pure _

theorem whileLoop_unwinds (test body : String) (n : Nat) :
    Act.Unwinds Q (call.whileLoop test body n) ((call.nesting run').whileLoop test body n) := by
  induction n with
  | zero =>
    rw [whileLoop, whileLoop]
    exact (condition_unwinds h test).bind fun _ => .ite (.of_quiet (.usage _)) (.of_quiet .done)
  | succ n ih =>
    rw [whileLoop, whileLoop]
    refine (condition_unwinds h test).bind fun goesOn => .ite ?_ (.of_quiet .done)
    refine (runBody_unwinds h body).bind fun verdict => ?_
    cases verdict with
    | next => exact ih
    | stop => exact .of_quiet .done
    | leave c => exact .pure c

theorem forLoop_unwinds (test next body : String) (n : Nat) :
    Act.Unwinds Q (call.forLoop test next body n)
      ((call.nesting run').forLoop test next body n) := by
  induction n with
  | zero =>
    rw [forLoop, forLoop]
    exact (condition_unwinds h test).bind fun _ => .ite (.of_quiet (.usage _)) (.of_quiet .done)
  | succ n ih =>
    rw [forLoop, forLoop]
    refine (condition_unwinds h test).bind fun goesOn => .ite ?_ (.of_quiet .done)
    refine (runBody_unwinds h body).bind fun verdict => ?_
    cases verdict with
    | next =>
      refine (runScript_unwinds h next).bind fun c => ?_
      cases c with
      | normal => exact ih
      | _ => exact .pure _
    | stop => exact .of_quiet .done
    | leave c => exact .pure c

theorem foreachLoop_unwinds (name body : String) (n : Nat) (elements : List String) :
    Act.Unwinds Q (call.foreachLoop name body n elements)
      ((call.nesting run').foreachLoop name body n elements) := by
  induction elements generalizing n with
  | nil => cases n <;> exact .of_quiet .done
  | cons element rest ih =>
    cases n with
    | zero => exact .of_quiet (.usage _)
    | succ n =>
      refine (Act.Unwinds.of_steady (.modifyScope _)).bind fun _ => ?_
      refine (runBody_unwinds h body).bind fun verdict => ?_
      cases verdict with
      | next => exact ih n
      | stop => exact .of_quiet .done
      | leave c => exact .pure c

end Call

theorem Branches.run_unwinds {Q : ScriptError → State → Prop} {call : Call} {run' : Runner}
    (h : Unwinding Q call.scope call.command.location call.run run') (b : Branches) :
    Act.Unwinds Q (b.run call) (b.run (call.nesting run')) := by
  induction b with
  | test condition body otherwise ih =>
    exact (Call.condition_unwinds h condition).bind fun _ => .ite (Call.runScript_unwinds h body) ih
  | script body => exact Call.runScript_unwinds h body
  | nothing => exact .of_quiet .done
  | fault f => exact .of_quiet (.usage f)

namespace Builtin

variable {call : Call} {args : List String}

theorem runSet_steady : Act.Steady (runSet call args) := by
  unfold runSet
  split
  · refine (Act.Steady.of_quiet .getScope).bind fun sc => ?_
    split
    · exact .of_quiet (.give _)
    · exact .of_quiet (.usage _)
  · exact (Act.Steady.modifyScope _).bind fun _ => .of_quiet (.give _)
  · exact .of_quiet (.refuse _)

theorem increase_steady (name : String) {increment : Act Float} (h : Act.Quiet increment) :
    Act.Steady (increase call name increment) :=
  (Act.Steady.of_quiet .getScope).bind fun _ =>
  (Act.Steady.of_quiet (readInteger_quiet _)).bind fun _ =>
    (Act.Steady.of_quiet h).bind fun _ => (Act.Steady.modifyScope _).bind fun _ =>
    .of_quiet (.give _)

theorem runIncr_steady : Act.Steady (runIncr call args) := by
  unfold runIncr
  split
  · exact increase_steady _ (.pure 1)
  · exact increase_steady _ (readInteger_quiet _)
  · exact .of_quiet (.refuse _)

theorem alter_steady (name : String) (f : String → String) : Act.Steady (alter call name f) :=
  (Act.Steady.of_quiet .getScope).bind fun _ => (Act.Steady.modifyScope _).bind fun _ =>
  .of_quiet (.give _)

theorem runAppend_steady : Act.Steady (runAppend call args) := by
  unfold runAppend
  split
  · exact alter_steady _ _
  · exact .of_quiet (.refuse _)

theorem runLappend_steady : Act.Steady (runLappend call args) := by
  unfold runLappend
  split
  · exact alter_steady _ _
  · exact .of_quiet (.refuse _)

theorem runProc_steady : Act.Steady (runProc call args) := by
  unfold runProc
  split
  · exact (Act.Steady.define _ _ _).bind fun _ => .of_quiet .done
  · exact .of_quiet (.refuse _)

variable {Q : ScriptError → State → Prop} {run' : Runner}
  (h : Unwinding Q call.scope call.command.location call.run run')

include h

theorem runFor_unwinds : Act.Unwinds Q (runFor call args) (runFor (call.nesting run') args) := by
  unfold runFor
  split
  · refine (Call.runScript_unwinds h _).bind fun c => ?_
    cases c with
    | normal => exact Call.forLoop_unwinds h _ _ _ _
    | _ => exact .pure _
  · exact .of_quiet (.refuse _)

theorem runWhile_unwinds :
    Act.Unwinds Q (runWhile call args) (runWhile (call.nesting run') args) := by
  unfold runWhile
  split
  · exact Call.whileLoop_unwinds h _ _ _
  · exact .of_quiet (.refuse _)

theorem runForeach_unwinds :
    Act.Unwinds Q (runForeach call args) (runForeach (call.nesting run') args) := by
  unfold runForeach
  split
  · exact (Act.Unwinds.ofExcept _).bind fun _ => Call.foreachLoop_unwinds h _ _ _ _
  · exact .of_quiet (.refuse _)

theorem runSubst_unwinds :
    Act.Unwinds Q (runSubst call args) (runSubst (call.nesting run') args) := by
  unfold runSubst
  split
  · exact (Act.Unwinds.lift (h.substitute _)).bind fun _ => .of_quiet (.give _)
  · exact .of_quiet (.refuse _)

theorem runSource_unwinds :
    Act.Unwinds Q (runSource call args) (runSource (call.nesting run') args) := by
  unfold runSource
  split
  · exact Call.runFile_unwinds h _
  · exact .of_quiet (.refuse _)

/-- Every built-in command unwinds. -/
theorem run_unwinds (b : Builtin) :
    Act.Unwinds Q (b.run call args) (b.run (call.nesting run') args) := by
  cases b with
  | set => exact .of_steady runSet_steady
  | incr => exact .of_steady runIncr_steady
  | append => exact .of_steady runAppend_steady
  | lappend => exact .of_steady runLappend_steady
  | global => exact .of_quiet ((Act.Quiet.logLanguage _ _).bind fun _ => .done)
  | info => exact .of_quiet runInfo_quiet
  | expr =>
    unfold run
    dsimp only
    split
    · exact .of_quiet (.refuse _)
    · exact (Call.evaluate_unwinds h _).bind fun _ => .of_quiet (.give _)
  | ifElse => exact Branches.run_unwinds h _
  | for_ => exact runFor_unwinds h
  | while_ => exact runWhile_unwinds h
  | foreach => exact runForeach_unwinds h
  | return_ | break_ | continue_ => exact .pure _
  | proc => exact .of_steady runProc_steady
  | eval =>
    unfold run
    dsimp only
    split
    · exact .of_quiet (.refuse _)
    · exact Call.runScript_unwinds h _
  | subst => exact runSubst_unwinds h
  | source => exact runSource_unwinds h
  | exec => exact .of_quiet (.usage _)
  | puts => exact .of_quiet runPuts_quiet
  | list => exact .of_quiet (.give _)
  | llength =>
    unfold run
    dsimp only
    split
    · exact .of_quiet ((Act.Quiet.listElements _).bind fun _ => .give _)
    · exact .of_quiet (.refuse _)
  | lindex => exact .of_quiet runLindex_quiet
  | join => exact .of_quiet runJoin_quiet
  | split => exact .of_quiet runSplit_quiet
  | string => exact .of_quiet stringCommand_quiet

end Builtin

namespace Operator

variable (call : Call) (args : List String)

theorem modifyState_steady (f : SessionState → SessionState) : Act.Steady (call.modifyState f) :=
  .modifyScope _

theorem modifyState_then_steady {f : SessionState → SessionState} {next : Unit → Act α}
    (hnext : Act.Quiet (next ())) : Act.Steady (call.modifyState f >>= next) :=
  (modifyState_steady call f).bind fun _ => .of_quiet hnext

theorem selectLo_steady : Act.Steady (selectLo call args) := by
  unfold selectLo
  split
  · refine (Act.Steady.of_quiet (getState_quiet call)).bind fun s => ?_
    dsimp only
    refine .ite (.usage_bind _) (.ite (.usage_bind _) ?_)
    split
    · exact .of_quiet (.usage _)
    · refine (Act.Steady.of_quiet (selectedOscillator_quiet _ args)).bind fun kind => ?_
      exact modifyState_then_steady call ((Act.Quiet.log _ _).bind fun _ => .done)
  · exact .of_quiet (.refuse _)

theorem loadFrequency_steady : Act.Steady (loadFrequency call args) := by
  refine (Act.Steady.of_quiet (.require args 2 _)).bind fun _ => ?_
  refine (Act.Steady.of_quiet (channelWords_quiet args)).bind fun a =>
    modifyState_then_steady call ?_
  exact (getState_quiet call).bind fun _ => (Act.Quiet.log _ _).bind fun _ => .done

theorem loadFilter_steady : Act.Steady (loadFilter call args) := by
  refine (Act.Steady.of_quiet (.require args 2 _)).bind fun _ => ?_
  dsimp only
  split
  · refine modifyState_then_steady call ?_
    exact (readChannels_quiet _).bind fun _ => (Act.Quiet.log _ _).bind fun _ => .done
  · exact .of_quiet (.refuse _)

theorem startData_steady : Act.Steady (startData call args) := by
  unfold startData
  dsimp only
  split
  · refine (Act.Steady.of_quiet (getState_quiet call)).bind fun s => ?_
    refine .ite (.of_quiet .done) (.ite (.of_quiet (.usage _)) ?_)
    exact modifyState_then_steady call ((Act.Quiet.log _ _).bind fun _ => .done)
  · exact .of_quiet (.refuse _)

theorem loadOption_steady (controller option value : String) :
    Act.Steady (loadOption call controller option value) := by
  unfold loadOption
  split
  · exact modifyState_then_steady call (.log _ _)
  · exact .of_quiet (.log _ _)
  · exact .of_quiet (.log _ _)
  · exact .of_quiet (.usage _)

theorem loadOptions_steady (controller : String) :
    Act.Steady (loadOptions call controller args) := by
  induction args using List.twoStepInduction with
  | nil | singleton => exact .of_quiet (.pure ())
  | cons_cons option value rest ih _ =>
    exact (loadOption_steady call controller option value).bind fun _ => ih

theorem loadRadar_steady : Act.Steady (loadRadar call args) := by
  cases args with
  | nil => exact .of_quiet (.refuse _)
  | cons which options =>
    refine (Act.Steady.of_quiet (choose_quiet _ _)).bind fun controller => ?_
    refine .ite (.usage_bind _) ((Act.Steady.of_quiet (.log _ _)).bind fun _ => ?_)
    exact (loadOptions_steady call options controller).bind fun _ => .of_quiet .done

theorem defineBlock_steady : Act.Steady (defineBlock call args) := by
  unfold defineBlock
  split
  · exact (Act.Steady.define _ _ _).bind fun _ =>
      .of_quiet ((Act.Quiet.log _ _).bind fun _ => .done)
  · exact .of_quiet (.refuse _)

/-- An operator that neither runs scripts nor jumps never halts. -/
theorem run_steady {o : Operator} (ho : ¬ o.Steers) : Act.Steady (o.run call args) := by
  by_cases hload : o.Loads
  · have hcases : o = .selectlo ∨ o = .loadfrequency ∨ o = .loadfilter ∨ o = .loadradar ∨
        o = .startdata := by simpa [Loads] using hload
    rcases hcases with rfl | rfl | rfl | rfl | rfl
    · exact selectLo_steady call args
    · exact loadFrequency_steady call args
    · exact loadFilter_steady call args
    · exact loadRadar_steady call args
    · exact startData_steady call args
  · by_cases hblock : o = .block
    · rw [hblock]
      exact defineBlock_steady call args
    · exact .of_quiet (run_quiet call args hload ho hblock)

variable {call args} {Q : ScriptError → State → Prop} {run' : Runner}
  (h : Unwinding Q call.scope call.command.location call.run run')

include h

theorem followJumps_unwinds (n : Nat) (c : Completion) :
    Act.Unwinds Q (followJumps call n c) (followJumps (call.nesting run') n c) := by
  induction n generalizing c with
  | zero =>
    cases c with
    | jump words => exact .of_quiet (.usage _)
    | _ => exact .pure _
  | succ n ih =>
    cases c with
    | jump words =>
      refine (Act.Unwinds.of_steady (.of_run fun st => ⟨.ok _, _, rfl⟩)).bind fun entry => ?_
      refine (Act.Unwinds.of_steady (.of_run fun st => ⟨.ok _, _, rfl⟩)).bind fun _ => ?_
      exact (Call.block_unwinds h words entry).bind ih
    | _ => exact .pure _

theorem runExperiment_unwinds :
    Act.Unwinds Q (runExperiment call args) (runExperiment (call.nesting run') args) := by
  refine (Act.Unwinds.of_quiet (.require args 1 _)).bind fun _ =>
    (Act.Unwinds.ofExcept _).bind fun file => ?_
  refine (Act.Unwinds.of_steady (modifyState_steady call _)).bind fun _ => ?_
  refine (Act.Unwinds.of_quiet (.log _ _)).bind fun _ => ?_
  exact (Act.Unwinds.lift (h.nested ..)).bind fun c => followJumps_unwinds h _ c

theorem run_unwinds (o : Operator) :
    Act.Unwinds Q (o.run call args) (o.run (call.nesting run') args) := by
  cases o with
  | runexperiment => exact runExperiment_unwinds h
  | callblock =>
    refine (Act.Unwinds.of_quiet (.require args 1 _)).bind fun _ => ?_
    refine (Act.Unwinds.of_quiet (.log _ _)).bind fun _ => ?_
    exact Call.block_unwinds h args call.entry
  | gotoblock => exact .of_quiet (gotoBlock_quiet call args)
  | loadfile =>
    cases args with
    | nil => exact .of_quiet (.refuse _)
    | cons path rest => exact Call.runFile_unwinds h path
  | loadradar =>
    exact ⟨fun hrun => (loadRadar_agrees run' args).eq_of_run hrun nofun,
      fun hrun => (loadRadar_steady call args hrun).elim⟩
  | _ => exact .of_steady (run_steady call args (fun h => h))

end Operator

theorem dispatch_unwinds {Q : ScriptError → State → Prop} (call : Call) {run' : Runner}
    (h : Unwinding Q call.scope call.command.location call.run run') (name : String)
    (args : List String) (handler : Handler) :
    Act.Unwinds Q (dispatch call name args (some handler))
      (dispatch (call.nesting run') name args (some handler)) := by
  cases handler with
  | builtin b => exact Builtin.run_unwinds h b
  | procedure p => exact Call.procedure_unwinds h p args call.entry
  | operator o => exact Operator.run_unwinds h o

end RadarTimeline.Console
