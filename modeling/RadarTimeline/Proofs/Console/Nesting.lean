import RadarTimeline.Console.Evaluation
import RadarTimeline.Proofs.Console.Run

namespace RadarTimeline.Console

variable {ε ε' α β γ : Type}

/-- One run does what another one does, wherever that is not nested too deep. -/
def Run.Agrees (x y : Run α) : Prop := ∀ st, (∀ st', x st ≠ .error .tooDeep st') → y st = x st

/-- So for acts. -/
def Act.Agrees (x y : ExceptT ε Run α) : Prop := Run.Agrees x.run y.run

/-- Scripts are run alike wherever they are not nested too deep. -/
def Runner.Agrees (run run' : Runner) : Prop :=
  ∀ s script filename line, Run.Agrees (run s script filename line) (run' s script filename line)

namespace Run.Agrees

variable {x y : Run α} {f g : α → Run β}

theorem refl (x : Run α) : Run.Agrees x x := fun _ _ => rfl

theorem eq_of_run (hx : Run.Agrees x y) {st : State} {result : EStateM.Result Halt State α}
    (h : x st = result) (hresult : ∀ st', result ≠ .error .tooDeep st') : y st = result := by
  rw [hx st fun st' htoo => hresult st' (h.symm.trans htoo), h]

theorem bind (hx : Run.Agrees x y) (hf : ∀ a, Run.Agrees (f a) (g a)) :
    Run.Agrees (x >>= f) (y >>= g) := by
  intro st hst
  cases hr : x st with
  | ok a st₁ =>
    rw [bind_of_ok hr] at hst ⊢
    rw [bind_of_ok (hx.eq_of_run hr nofun)]
    exact hf a st₁ hst
  | error halt st₁ =>
    rw [bind_of_error hr] at hst ⊢
    refine bind_of_error (hx.eq_of_run hr fun st' htoo => ?_)
    cases htoo
    exact hst st₁ rfl

theorem mapFault (k : ScriptError → ScriptError) (hx : Run.Agrees x y) :
    Run.Agrees (Run.mapFault k x) (Run.mapFault k y) := by
  intro st hst
  have hxy : y st = x st := by
    refine hx st fun st' h => hst st' ?_
    rw [Run.mapFault, h]
  rw [Run.mapFault, Run.mapFault, hxy]

theorem mapM {f g : γ → Run α} (h : ∀ c, Run.Agrees (f c) (g c)) (cs : List γ) :
    Run.Agrees (cs.mapM f) (cs.mapM g) := by
  induction cs with
  | nil => exact .refl _
  | cons c rest ih =>
    rw [List.mapM_cons, List.mapM_cons]
    exact (h c).bind fun _ => ih.bind fun _ => .refl _

end Run.Agrees

namespace Act.Agrees

variable {x y : ExceptT ε Run α} {f g : α → ExceptT ε Run β}

theorem refl (x : ExceptT ε Run α) : Act.Agrees x x := Run.Agrees.refl x.run

theorem lift {x y : Run α} (h : Run.Agrees x y) :
    Act.Agrees (liftM x : ExceptT ε Run α) (liftM y : ExceptT ε Run α) := by
  change Run.Agrees (Except.ok <$> x) (Except.ok <$> y)
  rw [map_eq_pure_bind, map_eq_pure_bind]
  exact h.bind fun _ => .refl _

theorem bind (hx : Act.Agrees x y) (hf : ∀ a, Act.Agrees (f a) (g a)) :
    Act.Agrees (x >>= f) (y >>= g) := by
  refine Run.Agrees.bind hx fun r => ?_
  cases r with
  | ok a => exact hf a
  | error e => exact .refl _

theorem ite {c : Prop} [Decidable c] {x' y' : ExceptT ε Run α} (hx : Act.Agrees x y)
    (hx' : Act.Agrees x' y') : Act.Agrees (if c then x else x') (if c then y else y') := by
  split
  · exact hx
  · exact hx'

theorem translate {k : Except ε α → ExceptT ε' Run β} (hx : Act.Agrees x y) :
    Act.Agrees ((liftM x.run : ExceptT ε' Run (Except ε α)) >>= k)
      ((liftM y.run : ExceptT ε' Run (Except ε α)) >>= k) :=
  (lift hx).bind fun _ => .refl _

end Act.Agrees

section

variable {run run' : Runner} (hrun : Runner.Agrees run run') {s : Nat}

include hrun

theorem bracketValue_agrees (script : String) (location : Script.Location) :
    Run.Agrees (bracketValue run s script location) (bracketValue run' s script location) :=
  (Run.Agrees.mapFault _ (hrun _ _ _ _)).bind fun _ => .refl _

theorem Piece.value_agrees (location : Script.Location) :
    ∀ p : Piece, Run.Agrees (p.value run s location) (p.value run' s location)
  | .literal _ | .variable _ | .fault _ => .refl _
  | .command script => bracketValue_agrees hrun script location

theorem substitute_agrees (text : String) (location : Script.Location) :
    Run.Agrees (substitute run s text location) (substitute run' s text location) :=
  (Run.Agrees.mapM (Piece.value_agrees hrun location) _).bind fun _ => .refl _

theorem wordValue_agrees (c : Script.Command) (w : Script.Word) :
    Run.Agrees (wordValue run s c w) (wordValue run' s c w) := by
  unfold wordValue
  cases w.kind with
  | braced => exact .refl _
  | bracketed => exact bracketValue_agrees hrun _ _
  | bare | quoted => exact substitute_agrees hrun _ _

end

/-- What two contexts do agrees. -/
structure ContextAgrees (ctx ctx' : Expr.Context Run) : Prop where
  valueOf : ∀ name, Run.Agrees (ctx.valueOf name) (ctx'.valueOf name)
  runScript : ∀ script, Run.Agrees (ctx.runScript script) (ctx'.runScript script)
  fillIn : ∀ text, Run.Agrees (ctx.fillIn text) (ctx'.fillIn text)

section

variable {ctx ctx' : Expr.Context Run}

theorem operand_agrees (h : ContextAgrees ctx ctx') :
    ∀ o : Expr.Operand, Act.Agrees (o.value ctx) (o.value ctx')
  | .number _ | .braced _ | .word _ => .refl _
  | .variable name => (Act.Agrees.lift (h.valueOf name)).bind fun _ => .refl _
  | .command script => (Act.Agrees.lift (h.runScript script)).bind fun _ => .refl _
  | .quoted text => (Act.Agrees.lift (h.fillIn text)).bind fun _ => .refl _

mutual

theorem tree_agrees (h : ContextAgrees ctx ctx') :
    ∀ t : Expr.Tree, Act.Agrees (t.eval ctx) (t.eval ctx')
  | .operand o => by
    rw [Expr.Tree.eval, Expr.Tree.eval]
    exact operand_agrees h o
  | .unary op operand => by
    rw [Expr.Tree.eval, Expr.Tree.eval]
    exact (tree_agrees h operand).bind fun _ => .refl _
  | .choice condition yes no => by
    rw [Expr.Tree.eval, Expr.Tree.eval]
    refine (tree_agrees h condition).bind fun v => (Act.Agrees.refl _).bind fun b => ?_
    cases b with
    | true => exact tree_agrees h yes
    | false => exact tree_agrees h no
  | .call name args => by
    rw [Expr.Tree.eval, Expr.Tree.eval]
    exact (trees_agree h args).bind fun _ => .refl _
  | .binary op left right => by
    rw [Expr.Tree.eval, Expr.Tree.eval]
    refine (tree_agrees h left).bind fun l => ?_
    split
    · refine (Act.Agrees.refl _).bind fun b => ?_
      cases b with
      | true => exact (tree_agrees h right).bind fun _ => .refl _
      | false => exact .refl _
    · refine (Act.Agrees.refl _).bind fun b => ?_
      cases b with
      | true => exact .refl _
      | false => exact (tree_agrees h right).bind fun _ => .refl _
    · exact (tree_agrees h right).bind fun _ => .refl _

theorem trees_agree (h : ContextAgrees ctx ctx') :
    ∀ ts : List Expr.Tree, Act.Agrees (Expr.evalAll ctx ts) (Expr.evalAll ctx' ts)
  | [] => by
    rw [Expr.evalAll, Expr.evalAll]
    exact .refl _
  | t :: ts => by
    rw [Expr.evalAll, Expr.evalAll]
    exact (tree_agrees h t).bind fun _ => (trees_agree h ts).bind fun _ => .refl _

end

theorem expression_agrees (h : ContextAgrees ctx ctx') (source : String) :
    Act.Agrees (Expr.evaluate ctx source) (Expr.evaluate ctx' source) :=
  (Act.Agrees.refl _).bind fun t => (tree_agrees h t).bind fun _ => .refl _

end

def Call.nesting (call : Call) (run : Runner) : Call := { call with run }

namespace Call

variable {call : Call} {run' : Runner} (hrun : Runner.Agrees call.run run')

include hrun

theorem runScript_agrees (script : String) :
    Act.Agrees (call.runScript script) ((call.nesting run').runScript script) :=
  .lift (hrun _ _ _ _)

theorem evaluate_agrees (expression : String) :
    Act.Agrees (call.evaluate expression) ((call.nesting run').evaluate expression) := by
  have hcontext : ContextAgrees
      { valueOf := fun name => variableValue call.scope name call.command.location
        runScript := fun script => bracketValue call.run call.scope script call.command.location
        fillIn := fun text => substitute call.run call.scope text call.command.location }
      { valueOf := fun name => variableValue call.scope name call.command.location
        runScript := fun script => bracketValue run' call.scope script call.command.location
        fillIn := fun text => substitute run' call.scope text call.command.location } :=
    ⟨fun _ => .refl _, fun script => bracketValue_agrees hrun script _,
      fun text => substitute_agrees hrun text _⟩
  exact (expression_agrees hcontext expression).translate

theorem condition_agrees (expression : String) :
    Act.Agrees (call.condition expression) ((call.nesting run').condition expression) :=
  (evaluate_agrees hrun expression).bind fun _ => .refl _

theorem runFile_agrees (path : String) :
    Act.Agrees (call.runFile path) ((call.nesting run').runFile path) := by
  unfold runFile
  rw [nesting]
  cases call.setup.files.read path with
  | error fault => exact .refl _
  | ok text => exact (Act.Agrees.lift (hrun _ _ _ _)).bind fun _ => .refl _

theorem procedure_agrees (p : Procedure) (args : List String) (entry : Nat) :
    Act.Agrees (call.procedure p args entry) ((call.nesting run').procedure p args entry) := by
  unfold procedure
  rw [nesting]
  cases p.bind? args with
  | none => exact .refl _
  | some bindings =>
    refine (Act.Agrees.refl _).bind fun child => (Act.Agrees.refl _).bind fun _ => ?_
    exact (Act.Agrees.lift (hrun _ _ _ _)).bind fun _ => .refl _

theorem block_agrees (words : List String) (entry : Nat) :
    Act.Agrees (call.block words entry) ((call.nesting run').block words entry) := by
  refine (Act.Agrees.refl call.getScope).bind fun sc => ?_
  cases sc.procedure? (words.headD "") with
  | none => exact .refl _
  | some p => exact procedure_agrees hrun p words.tail entry

theorem runBody_agrees (body : String) :
    Act.Agrees (call.runBody body) ((call.nesting run').runBody body) :=
  (runScript_agrees hrun body).bind fun _ => .refl _

theorem whileLoop_agrees (test body : String) (n : Nat) :
    Act.Agrees (call.whileLoop test body n) ((call.nesting run').whileLoop test body n) := by
  induction n with
  | zero =>
    rw [whileLoop, whileLoop]
    exact (condition_agrees hrun test).bind fun _ => .refl _
  | succ n ih =>
    rw [whileLoop, whileLoop]
    refine (condition_agrees hrun test).bind fun goesOn => .ite ?_ (.refl _)
    refine (runBody_agrees hrun body).bind fun verdict => ?_
    cases verdict with
    | next => exact ih
    | stop | leave => exact .refl _

theorem forLoop_agrees (test next body : String) (n : Nat) :
    Act.Agrees (call.forLoop test next body n) ((call.nesting run').forLoop test next body n) := by
  induction n with
  | zero =>
    rw [forLoop, forLoop]
    exact (condition_agrees hrun test).bind fun _ => .refl _
  | succ n ih =>
    rw [forLoop, forLoop]
    refine (condition_agrees hrun test).bind fun goesOn => .ite ?_ (.refl _)
    refine (runBody_agrees hrun body).bind fun verdict => ?_
    cases verdict with
    | next =>
      refine (runScript_agrees hrun next).bind fun c => ?_
      cases c with
      | normal => exact ih
      | _ => exact .refl _
    | stop | leave => exact .refl _

theorem foreachLoop_agrees (name body : String) (n : Nat) (elements : List String) :
    Act.Agrees (call.foreachLoop name body n elements)
      ((call.nesting run').foreachLoop name body n elements) := by
  induction elements generalizing n with
  | nil => cases n <;> exact .refl _
  | cons element rest ih =>
    cases n with
    | zero => exact .refl _
    | succ n =>
      refine (Act.Agrees.refl _).bind fun _ => (runBody_agrees hrun body).bind fun verdict => ?_
      cases verdict with
      | next => exact ih n
      | stop | leave => exact .refl _

end Call

section

variable {call : Call} {run' : Runner} (hrun : Runner.Agrees call.run run')

include hrun

theorem Branches.run_agrees (b : Branches) :
    Act.Agrees (b.run call) (b.run (call.nesting run')) := by
  induction b with
  | test condition body otherwise ih =>
    exact (Call.condition_agrees hrun condition).bind fun _ =>
      .ite (Call.runScript_agrees hrun body) ih
  | script body => exact Call.runScript_agrees hrun body
  | nothing | fault => exact .refl _

/-- Every built-in command agrees where its scripts do. -/
theorem Builtin.run_agrees (args : List String) (b : Builtin) :
    Act.Agrees (b.run call args) (b.run (call.nesting run') args) := by
  cases b with
  | expr =>
    unfold run
    dsimp only
    split
    · exact .refl _
    · exact (Call.evaluate_agrees hrun _).bind fun _ => .refl _
  | ifElse => exact Branches.run_agrees hrun _
  | for_ =>
    change Act.Agrees (runFor call args) (runFor (call.nesting run') args)
    unfold runFor
    split
    · refine (Call.runScript_agrees hrun _).bind fun c => ?_
      cases c with
      | normal => exact Call.forLoop_agrees hrun _ _ _ _
      | _ => exact .refl _
    · exact .refl _
  | while_ =>
    change Act.Agrees (runWhile call args) (runWhile (call.nesting run') args)
    unfold runWhile
    split
    · exact Call.whileLoop_agrees hrun _ _ _
    · exact .refl _
  | foreach =>
    change Act.Agrees (runForeach call args) (runForeach (call.nesting run') args)
    unfold runForeach
    split
    · exact (Act.Agrees.refl _).bind fun _ => Call.foreachLoop_agrees hrun _ _ _ _
    · exact .refl _
  | eval =>
    unfold run
    dsimp only
    split
    · exact .refl _
    · exact Call.runScript_agrees hrun _
  | subst =>
    change Act.Agrees (runSubst call args) (runSubst (call.nesting run') args)
    unfold runSubst
    split
    · exact (Act.Agrees.lift (substitute_agrees hrun _ _)).bind fun _ => .refl _
    · exact .refl _
  | source =>
    change Act.Agrees (runSource call args) (runSource (call.nesting run') args)
    unfold runSource
    split
    · exact Call.runFile_agrees hrun _
    · exact .refl _
  | llength | lindex =>
    unfold run
    exact .refl _
  | _ => exact .refl _

namespace Operator

theorem followJumps_agrees (n : Nat) (c : Completion) :
    Act.Agrees (followJumps call n c) (followJumps (call.nesting run') n c) := by
  induction n generalizing c with
  | zero => cases c <;> exact .refl _
  | succ n ih =>
    cases c with
    | jump words =>
      refine (Act.Agrees.refl _).bind fun entry => (Act.Agrees.refl _).bind fun _ => ?_
      exact (Call.block_agrees hrun words entry).bind ih
    | _ => exact .refl _

omit hrun in
theorem loadOptions_nesting (run' : Runner) (controller : String) (options : List String) :
    loadOptions (call.nesting run') controller options = loadOptions call controller options := by
  fun_induction loadOptions call controller options with
  | case1 option value rest ih =>
    rw [loadOptions, ih]
    rfl
  | case2 options h =>
    unfold loadOptions
    split
    · exact absurd rfl (h _ _ _)
    · rfl

omit hrun in
theorem loadRadar_agrees (run' : Runner) (args : List String) :
    Act.Agrees (loadRadar call args) (loadRadar (call.nesting run') args) := by
  cases args with
  | nil => exact .refl _
  | cons which options =>
    refine (Act.Agrees.refl _).bind fun controller => .ite (.refl _) ?_
    refine (Act.Agrees.refl _).bind fun _ => ?_
    rw [loadOptions_nesting]
    exact .refl _

theorem run_agrees (args : List String) (o : Operator) :
    Act.Agrees (o.run call args) (o.run (call.nesting run') args) := by
  cases o with
  | runexperiment =>
    refine (Act.Agrees.refl _).bind fun _ => (Act.Agrees.refl _).bind fun file => ?_
    refine (Act.Agrees.refl _).bind fun _ => (Act.Agrees.refl _).bind fun _ => ?_
    exact (Act.Agrees.lift (hrun _ _ _ _)).bind fun c => followJumps_agrees hrun _ c
  | callblock =>
    refine (Act.Agrees.refl _).bind fun _ => (Act.Agrees.refl _).bind fun _ => ?_
    exact Call.block_agrees hrun args call.entry
  | loadfile =>
    cases args with
    | nil => exact .refl _
    | cons path rest => exact Call.runFile_agrees hrun path
  | loadradar => exact loadRadar_agrees run' args
  | _ => exact .refl _

end Operator

end

theorem dispatch_agrees (call : Call) {run' : Runner} (hrun : Runner.Agrees call.run run')
    (name : String) (args : List String) (handler : Option Handler) :
    Act.Agrees (dispatch call name args handler)
      (dispatch (call.nesting run') name args handler) := by
  obtain _ | handler := handler
  · exact .refl _
  cases handler with
  | builtin b => exact Builtin.run_agrees hrun args b
  | procedure p => exact Call.procedure_agrees hrun p args call.entry
  | operator o => exact Operator.run_agrees hrun args o

section

variable {setup : Setup} {run run' : Runner} (hrun : Runner.Agrees run run')

include hrun

theorem carryOut_agrees (s : Nat) (c : Script.Command) :
    Run.Agrees (carryOut setup run s c) (carryOut setup run' s c) := by
  refine (wordValue_agrees hrun c c.head).bind fun name => ?_
  refine (Run.Agrees.mapM (wordValue_agrees hrun c) c.args).bind fun args => ?_
  refine (Run.Agrees.refl _).bind fun entry => (Run.Agrees.refl _).bind fun sc => ?_
  refine (Run.Agrees.refl _).bind fun _ => Run.Agrees.bind ?_ fun r => .refl _
  exact dispatch_agrees ⟨setup, run, s, c, entry⟩ hrun name args _

theorem carryOutAll_agrees (s : Nat) (last : Completion) (cs : List Script.Command) :
    Run.Agrees (carryOutAll (carryOut setup run s) last cs)
      (carryOutAll (carryOut setup run' s) last cs) := by
  induction cs generalizing last with
  | nil =>
    rw [carryOutAll, carryOutAll]
    exact .refl _
  | cons c rest ih =>
    rw [carryOutAll, carryOutAll]
    refine (carryOut_agrees hrun s c).bind fun completion => ?_
    cases completion with
    | normal value => exact ih _
    | _ => exact .refl _

theorem runScript_agrees : Runner.Agrees (runScript setup run) (runScript setup run') := by
  intro s script filename line
  unfold runScript
  cases Script.readScript script filename line with
  | error e => exact .refl _
  | ok commands => exact carryOutAll_agrees hrun s _ commands

end

/-- Runs a script nested to a depth; what is nested deeper is run by `beyond`. -/
def runAbove (setup : Setup) (beyond : Runner) : Nat → Runner
  | 0 => beyond
  | depth + 1 => runScript setup (runAbove setup beyond depth)

variable (setup : Setup)

theorem runNested_agrees_runAbove (beyond : Runner) (depth : Nat) :
    Runner.Agrees (runNested setup depth) (runAbove setup beyond depth) := by
  induction depth with
  -- no script is run at depth 0, and there is nothing to agree on
  | zero => exact fun _ _ _ _ st hst => absurd rfl (hst st)
  | succ depth ih => exact runScript_agrees ih

theorem runAbove_runNested (depth more : Nat) :
    runAbove setup (runNested setup more) depth = runNested setup (depth + more) := by
  induction depth with
  | zero => rw [Nat.zero_add, runAbove]
  | succ depth ih => rw [Nat.add_right_comm, runAbove, ih, runNested]

theorem runNested_agrees {depth deeper : Nat} (h : depth ≤ deeper) :
    Runner.Agrees (runNested setup depth) (runNested setup deeper) := by
  obtain ⟨more, rfl⟩ := Nat.exists_eq_add_of_le h
  -- a deeper run is one to the same depth, with something else beyond it
  rw [← runAbove_runNested]
  exact runNested_agrees_runAbove setup _ depth

end RadarTimeline.Console
