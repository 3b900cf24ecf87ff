import RadarTimeline.Proofs.Console.Answers
import RadarTimeline.Proofs.Console.Interpreter
import RadarTimeline.Proofs.Console.Pursuit

namespace RadarTimeline.Console

variable {α β : Type} {limit s : Nat}

/-- All scripts that are run ask for the jumps that they complete with. -/
def Runner.Pursues (limit : Nat) (run : Runner) : Prop :=
  ∀ s script filename line, (run s script filename line).Pursues limit s none Completion.target?

def LoopVerdict.target? : LoopVerdict → Option (List String)
  | .leave c => c.target?
  | _ => none

theorem Completion.target?_of_value? {c : Completion} {value : String} (h : c.value? = some value) :
    c.target? = none := by
  cases c with
  | normal | returned | broken | continued => rfl
  | jump words => cases h

theorem Completion.target?_settled (c : Completion) : c.settled.target? = c.target? := by
  cases c <;> rfl

theorem LoopVerdict.target?_ofCompletion (c : Completion) :
    (LoopVerdict.ofCompletion c).target? = c.target? := by
  cases c <;> rfl

section

variable {run : Runner} (hrun : run.Pursues limit)

theorem variableValue_pursues (name : String) (location : Script.Location) :
    (variableValue s name location).Pursues limit s none fun _ => none := by
  refine (Run.Pursues.scope s).bind fun sc => ?_
  split
  · exact .pure rfl
  · exact .halt _ _

include hrun

/-- A jump does not come out of brackets. -/
theorem bracketValue_pursues (script : String) (location : Script.Location) :
    (bracketValue run s script location).Pursues limit s none fun _ => none := by
  have hrefuses : (Run.mapFault (fun e => ⟨.substituting script e.fault e.location, location⟩)
      (run s script location.filename location.line)).Pursues limit s none Completion.target? :=
    .mapFault (fun _ h => h) (hrun s script _ _)
  refine hrefuses.bind fun completion => ?_
  -- what has no value is refused, and a jump has none
  split
  · next h => exact .pure (Completion.target?_of_value? h).symm
  · refine .throw fun h => ?_
    cases completion with
    | jump words => rfl
    | _ => cases h

theorem Piece.value_pursues (location : Script.Location) :
    ∀ p : Piece, (p.value run s location).Pursues limit s none fun _ => none
  | .literal _ => .pure rfl
  | .variable name => variableValue_pursues name location
  | .command script => bracketValue_pursues hrun script location
  | .fault f => .halt f location

theorem substitute_pursues (text : String) (location : Script.Location) :
    (substitute run s text location).Pursues limit s none fun _ => none :=
  (Run.Pursues.mapM (Piece.value_pursues hrun location) _).bind fun _ => .pure rfl

theorem wordValue_pursues (c : Script.Command) (w : Script.Word) :
    (wordValue run s c w).Pursues limit s none fun _ => none := by
  unfold wordValue
  split
  · exact .pure rfl
  · exact bracketValue_pursues hrun _ _
  all_goals exact substitute_pursues hrun _ _

end

/-- An evaluation that asks for no jump, whether it gives a value or not. -/
def Act.Calm (limit s : Nat) (x : ExceptT Expr.Fault Run α) : Prop :=
  Run.Pursues limit s none x.run fun _ => none

namespace Act.Calm

theorem bind {x : ExceptT Expr.Fault Run α} {f : α → ExceptT Expr.Fault Run β}
    (hx : Act.Calm limit s x) (hf : ∀ a, Act.Calm limit s (f a)) : Act.Calm limit s (x >>= f) := by
  refine Run.Pursues.bind hx fun result => ?_
  cases result with
  | ok a => exact hf a
  | error e => exact .pure rfl

theorem pure (a : α) : Act.Calm limit s (Pure.pure a) := Run.Pursues.pure rfl

theorem ofExcept (result : Except Expr.Fault α) : Act.Calm limit s (liftM result) := by
  cases result with
  | ok a => exact .pure a
  | error e => exact Run.Pursues.pure rfl

theorem lift {x : Run α} (hx : x.Pursues limit s none fun _ => none) :
    Act.Calm limit s (liftM x) := by
  change Run.Pursues limit s none (Except.ok <$> x) fun _ => none
  rw [map_eq_pure_bind]
  exact hx.bind fun _ => .pure rfl

theorem ite {b : Bool} {x y : ExceptT Expr.Fault Run α} (hx : Act.Calm limit s x)
    (hy : Act.Calm limit s y) :
    Act.Calm limit s (if b then x else y) := by
  split
  · exact hx
  · exact hy

end Act.Calm

/-- What a context does asks for no jump. -/
structure ContextCalm (limit s : Nat) (ctx : Expr.Context Run) : Prop where
  valueOf : ∀ name, (ctx.valueOf name).Pursues limit s none fun _ => none
  runScript : ∀ script, (ctx.runScript script).Pursues limit s none fun _ => none
  fillIn : ∀ text, (ctx.fillIn text).Pursues limit s none fun _ => none

section

variable {ctx : Expr.Context Run}

theorem operand_calm (h : ContextCalm limit s ctx) : ∀ o :
    Expr.Operand, Act.Calm limit s (o.value ctx)
  | .number _ | .braced _ | .word _ => .pure _
  | .variable name => (Act.Calm.lift (h.valueOf name)).bind fun _ => .ofExcept _
  | .command script => (Act.Calm.lift (h.runScript script)).bind fun _ => .ofExcept _
  | .quoted text => (Act.Calm.lift (h.fillIn text)).bind fun _ => .ofExcept _

mutual

theorem tree_calm (h : ContextCalm limit s ctx) : ∀ t : Expr.Tree, Act.Calm limit s (t.eval ctx)
  | .operand o => by
    rw [Expr.Tree.eval]
    exact operand_calm h o
  | .unary op operand => by
    rw [Expr.Tree.eval]
    exact (tree_calm h operand).bind fun _ => .ofExcept _
  | .choice condition yes no => by
    rw [Expr.Tree.eval]
    exact (tree_calm h condition).bind fun _ => (Act.Calm.ofExcept _).bind fun _ =>
      .ite (tree_calm h yes) (tree_calm h no)
  | .call name args => by
    rw [Expr.Tree.eval]
    exact (trees_calm h args).bind fun _ => .ofExcept _
  | .binary op left right => by
    rw [Expr.Tree.eval]
    refine (tree_calm h left).bind fun l => ?_
    split
    · exact (Act.Calm.ofExcept _).bind fun _ =>
        .ite ((tree_calm h right).bind fun _ => (Act.Calm.ofExcept _).bind fun _ => .pure _)
          (.pure _)
    · exact (Act.Calm.ofExcept _).bind fun _ =>
        .ite (.pure _) ((tree_calm h right).bind fun _ =>
          (Act.Calm.ofExcept _).bind fun _ => .pure _)
    · exact (tree_calm h right).bind fun _ => .ofExcept _

theorem trees_calm (h : ContextCalm limit s ctx) :
    ∀ ts : List Expr.Tree, Act.Calm limit s (Expr.evalAll ctx ts)
  | [] => by
    rw [Expr.evalAll]
    exact .pure _
  | t :: ts => by
    rw [Expr.evalAll]
    exact (tree_calm h t).bind fun _ => (trees_calm h ts).bind fun _ => .pure _

end

theorem expression_calm (h : ContextCalm limit s ctx) (source : String) :
    Act.Calm limit s (Expr.evaluate ctx source) :=
  (Act.Calm.ofExcept _).bind fun t => (tree_calm h t).bind fun _ => .pure _

end

namespace Act

theorem Quiet.silent {x : Act α} (hx : Act.Quiet x) : x.Pursues limit s none fun _ => none :=
  hx.pursues fun _ _ _ _ => rfl

theorem Quiet.answers {x : Act Completion} (hx : Act.Quiet x) (h : Act.Answers x) :
    x.Pursues limit s none Completion.target? :=
  hx.pursues h

end Act

namespace Call

variable {call : Call} {st : State}

theorem give_pursues (value : String) : (give value).Pursues limit s none Completion.target? :=
  .pure rfl

theorem done_pursues : done.Pursues limit s none Completion.target? := .pure rfl

theorem refuse_pursues (text : String) : (refuse text).Pursues limit s none Completion.target? :=
  .throw _

theorem usage_pursues (fault : UsageFault) :
    (usage fault).Pursues limit s none Completion.target? := .throw _

theorem return_pursues (c : Completion) :
    (Pure.pure c : Act Completion).Pursues limit s c.target? Completion.target? :=
  .pure rfl

theorem setVariable_pursues (name value : String) :
    (call.setVariable name value).Pursues limit s none fun _ => none :=
  .modifyScope call _

theorem define_pursues (name parameters body : String) :
    (call.define name parameters body).Pursues limit s none fun _ => none :=
  (Act.Pursues.ofExcept _).bind fun _ => .modifyScope call _

theorem leave_pursues (c : Completion) :
    (leave c).Pursues limit s c.target? Completion.target? := by
  cases c with
  | normal => exact done_pursues
  | returned => exact give_pursues _
  | jump words => exact return_pursues _
  | broken | continued => exact usage_pursues _

variable (hrun : call.run.Pursues limit)

include hrun

theorem runScript_pursues (script : String) :
    (call.runScript script).Pursues limit call.scope none Completion.target? :=
  .lift (hrun call.scope script _ _)

theorem evaluate_pursues (expression : String) :
    (call.evaluate expression).Pursues limit call.scope none fun _ => none := by
  have hcontext : ContextCalm limit call.scope
      { valueOf := fun name => variableValue call.scope name call.command.location
        runScript := fun script => bracketValue call.run call.scope script call.command.location
        fillIn := fun text => substitute call.run call.scope text call.command.location } :=
    ⟨fun name => variableValue_pursues name _, fun script => bracketValue_pursues hrun script _,
      fun text => substitute_pursues hrun text _⟩
  refine (Act.Pursues.lift (expression_calm hcontext expression)).bind fun result => ?_
  cases result with
  | ok value => exact .pure rfl
  | error fault => exact .throw _

theorem condition_pursues (expression : String) :
    (call.condition expression).Pursues limit call.scope none fun _ => none :=
  (evaluate_pursues hrun expression).bind fun _ => .ofExcept _

theorem runFile_pursues (path : String) :
    (call.runFile path).Pursues limit call.scope none Completion.target? := by
  unfold runFile
  split
  · exact (Act.Quiet.logLanguage _ _).silent.bind fun _ => done_pursues
  · exact (Act.Pursues.lift (hrun call.scope _ path 1)).bind fun c => .pure c.target?_settled

theorem procedure_pursues (p : Procedure) (args : List String) (entry : Nat) :
    (call.procedure p args entry).Pursues limit call.scope none Completion.target? := by
  intro experiments st hs
  cases hbind : p.bind? args with
  | none =>
    unfold procedure
    rw [hbind]
    exact refuse_pursues _ experiments st hs
  | some bindings =>
    have hopen : Plays limit ⟨experiments, none⟩ st
        (st.openCall call.scope entry s!"proc {p.name}" bindings) ⟨experiments, none⟩ :=
      .of_trace (by simp) rfl
    refine .after hopen (procedure_run call p args entry hbind st) ?_
    have hbody := (Act.Pursues.lift (hrun st.scopes.size p.body p.filename p.line)) experiments
      (st.openCall call.scope entry s!"proc {p.name}" bindings) (by simp)
    refine .bind [] hbody fun c st₁ h => ?_
    have hclose : Plays limit ⟨experiments, c.target?⟩ st₁ (st₁.closeCall call.scope st.scopes.size)
        ⟨experiments, c.target?⟩ :=
      .of_trace (Nat.le_of_eq (st₁.size_modifyScope _ _).symm) rfl
    have hs₁ : call.scope < (st₁.closeCall call.scope st.scopes.size).scopes.size :=
      Nat.lt_of_lt_of_le hs
        (Nat.le_trans hopen.size_le (Nat.le_trans (hbody.ends h).size_le hclose.size_le))
    exact .after hclose (finish_run st.scopes.size c st₁) (leave_pursues c experiments _ hs₁)

theorem block_pursues (words : List String) (entry : Nat) :
    (call.block words entry).Pursues limit call.scope none Completion.target? := by
  refine Act.Quiet.getScope.silent.bind fun sc => ?_
  split
  · exact usage_pursues _
  · exact procedure_pursues hrun _ _ _

theorem runBody_pursues (body : String) :
    (call.runBody body).Pursues limit call.scope none LoopVerdict.target? :=
  (runScript_pursues hrun body).bind fun c => .pure (LoopVerdict.target?_ofCompletion c)

theorem whileLoop_pursues (test body : String) (n : Nat) :
    (call.whileLoop test body n).Pursues limit call.scope none Completion.target? := by
  induction n with
  | zero => exact (condition_pursues hrun test).bind fun _ => .ite (usage_pursues _) done_pursues
  | succ n ih =>
    refine (condition_pursues hrun test).bind fun _ => .ite ?_ done_pursues
    refine (runBody_pursues hrun body).bind fun verdict => ?_
    cases verdict with
    | next => exact ih
    | stop => exact done_pursues
    | leave c => exact return_pursues c

theorem forLoop_pursues (test next body : String) (n : Nat) :
    (call.forLoop test next body n).Pursues limit call.scope none Completion.target? := by
  induction n with
  | zero => exact (condition_pursues hrun test).bind fun _ => .ite (usage_pursues _) done_pursues
  | succ n ih =>
    refine (condition_pursues hrun test).bind fun _ => .ite ?_ done_pursues
    refine (runBody_pursues hrun body).bind fun verdict => ?_
    cases verdict with
    | next =>
      refine (runScript_pursues hrun next).bind fun c => ?_
      cases c with
      | normal => exact ih
      | _ => exact return_pursues _
    | stop => exact done_pursues
    | leave c => exact return_pursues c

theorem foreachLoop_pursues (name body : String) (n : Nat) (elements : List String) :
    (call.foreachLoop name body n elements).Pursues limit call.scope none Completion.target? := by
  induction elements generalizing n with
  | nil =>
    unfold foreachLoop
    exact done_pursues
  | cons element rest ih =>
    cases n with
    | zero => exact usage_pursues _
    | succ n =>
      refine (setVariable_pursues name element).bind fun _ => ?_
      refine (runBody_pursues hrun body).bind fun verdict => ?_
      cases verdict with
      | next => exact ih n
      | stop => exact done_pursues
      | leave c => exact return_pursues c

end Call

theorem Branches.run_pursues {call : Call} (hrun : call.run.Pursues limit) (b : Branches) :
    (b.run call).Pursues limit call.scope none Completion.target? := by
  induction b with
  | test condition body otherwise ih =>
    exact (Call.condition_pursues hrun condition).bind fun _ =>
      .ite (Call.runScript_pursues hrun body) ih
  | script body => exact Call.runScript_pursues hrun body
  | nothing => exact Call.done_pursues
  | fault f => exact Call.usage_pursues f

namespace Builtin

variable {call : Call} {args : List String}

theorem runSet_pursues : (runSet call args).Pursues limit s none Completion.target? := by
  unfold runSet
  split
  · refine Act.Quiet.getScope.silent.bind fun sc => ?_
    split
    · exact Call.give_pursues _
    · exact Call.usage_pursues _
  · exact (Call.setVariable_pursues _ _).bind fun _ => Call.give_pursues _
  · exact Call.refuse_pursues _

theorem increase_pursues (name : String) {increment : Act Float} (h : Act.Quiet increment) :
    (increase call name increment).Pursues limit s none Completion.target? := by
  refine Act.Quiet.getScope.silent.bind fun sc => ?_
  refine (readInteger_quiet _).silent.bind fun current => ?_
  exact h.silent.bind fun _ => (Call.setVariable_pursues _ _).bind fun _ => Call.give_pursues _

theorem runIncr_pursues : (runIncr call args).Pursues limit s none Completion.target? := by
  unfold runIncr
  split
  · exact increase_pursues _ (.pure 1)
  · exact increase_pursues _ (readInteger_quiet _)
  · exact Call.refuse_pursues _

theorem alter_pursues (name : String) (f : String → String) :
    (alter call name f).Pursues limit s none Completion.target? :=
  Act.Quiet.getScope.silent.bind fun _ => (Call.setVariable_pursues _ _).bind fun _ =>
  Call.give_pursues _

theorem runAppend_pursues : (runAppend call args).Pursues limit s none Completion.target? := by
  unfold runAppend
  split
  · exact alter_pursues _ _
  · exact Call.refuse_pursues _

theorem runLappend_pursues : (runLappend call args).Pursues limit s none Completion.target? := by
  unfold runLappend
  split
  · exact alter_pursues _ _
  · exact Call.refuse_pursues _

theorem runProc_pursues : (runProc call args).Pursues limit s none Completion.target? := by
  unfold runProc
  split
  · exact (Call.define_pursues _ _ _).bind fun _ => Call.done_pursues
  · exact Call.refuse_pursues _

variable (hrun : call.run.Pursues limit)

include hrun

theorem runFor_pursues : (runFor call args).Pursues limit call.scope none Completion.target? := by
  unfold runFor
  split
  · refine (Call.runScript_pursues hrun _).bind fun c => ?_
    cases c with
    | normal => exact Call.forLoop_pursues hrun _ _ _ _
    | _ => exact Call.return_pursues _
  · exact Call.refuse_pursues _

theorem runWhile_pursues :
    (runWhile call args).Pursues limit call.scope none Completion.target? := by
  unfold runWhile
  split
  · exact Call.whileLoop_pursues hrun _ _ _
  · exact Call.refuse_pursues _

theorem runForeach_pursues :
    (runForeach call args).Pursues limit call.scope none Completion.target? := by
  unfold runForeach
  split
  · exact (Act.Quiet.listElements _).silent.bind fun _ => Call.foreachLoop_pursues hrun _ _ _ _
  · exact Call.refuse_pursues _

theorem runSubst_pursues :
    (runSubst call args).Pursues limit call.scope none Completion.target? := by
  unfold runSubst
  split
  · exact (Act.Pursues.lift (substitute_pursues hrun _ _)).bind fun _ => Call.give_pursues _
  · exact Call.refuse_pursues _

theorem runSource_pursues :
    (runSource call args).Pursues limit call.scope none Completion.target? := by
  unfold runSource
  split
  · exact Call.runFile_pursues hrun _
  · exact Call.refuse_pursues _

/-- Every built-in command hands on the jumps of its scripts. -/
theorem run_pursues (b : Builtin) :
    (b.run call args).Pursues limit call.scope none Completion.target? := by
  cases b with
  | set => exact runSet_pursues
  | incr => exact runIncr_pursues
  | append => exact runAppend_pursues
  | lappend => exact runLappend_pursues
  | global => exact (Act.Quiet.logLanguage _ _).silent.bind fun _ => Call.done_pursues
  | info => exact runInfo_quiet.answers (runInfo_answers call args)
  | expr =>
    unfold run
    exact .ite (Call.refuse_pursues _) ((Call.evaluate_pursues hrun _).bind fun _ =>
      Call.give_pursues _)
  | ifElse => exact Branches.run_pursues hrun _
  | for_ => exact runFor_pursues hrun
  | while_ => exact runWhile_pursues hrun
  | foreach => exact runForeach_pursues hrun
  | return_ | break_ | continue_ => exact .pure rfl
  | proc => exact runProc_pursues
  | eval =>
    unfold run
    exact .ite (Call.refuse_pursues _) (Call.runScript_pursues hrun _)
  | subst => exact runSubst_pursues hrun
  | source => exact runSource_pursues hrun
  | exec => exact Call.usage_pursues _
  | puts => exact runPuts_quiet.answers (runPuts_answers args)
  | list => exact Call.give_pursues _
  | llength =>
    unfold run
    dsimp only
    split
    · exact (Act.Quiet.listElements _).silent.bind fun _ => Call.give_pursues _
    · exact Call.refuse_pursues _
  | lindex => exact runLindex_quiet.answers (runLindex_answers args)
  | join => exact runJoin_quiet.answers (runJoin_answers args)
  | split => exact runSplit_quiet.answers (runSplit_answers args)
  | string => exact stringCommand_quiet.answers (stringCommand_answers args)

end Builtin

end RadarTimeline.Console
