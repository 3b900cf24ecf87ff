import RadarTimeline.Proofs.Console.Quiet

namespace RadarTimeline.Console

variable {ε ε' α β γ : Type}

/-- Scripts of a scope that fail in a state with an error, and the states they leave. -/
abbrev Failing := (scope : Nat) → (script filename : String) → (line : Position) →
  State → ScriptError → State → Prop

/-- The scripts that fail if they are run. -/
def Runner.fails (run : Runner) : Failing := fun s script filename line st e st' =>
  run s script filename line st = .error (.fault e) st'

/-- What one runner completes, the other one completes in the same way. -/
def Runner.Keeps (run run' : Runner) : Prop := ∀ ⦃s script filename line st c st'⦄,
  run s script filename line st = .ok c st' → run' s script filename line st = .ok c st'

/-- How the replacement of a part of a text fails. An error of the script in a bracket group is
wrapped up as one of the group. -/
inductive Piece.Fails (run : Runner) (failing : Failing) (s : Nat) (location : Script.Location)
    (st : State) : Piece → ScriptError → State → Prop
  | unknown {name : String} (h : (st.scope s).bindings.get? name = none) :
    Piece.Fails run failing s location st (.variable name) ⟨.unknownVariable name, location⟩ st
  | command {script : String} {e : ScriptError} {st' : State}
    (h : failing s script location.filename location.line st e st') :
    Piece.Fails run failing s location st (.command script)
      ⟨.substituting script e.fault e.location, location⟩ st'
  /-- The script completes in a way that has no value. -/
  | completion {script : String} {c : Completion} {st' : State}
    (h : run s script location.filename location.line st = .ok c st') (hc : c.value? = none) :
    Piece.Fails run failing s location st
      (.command script) ⟨.insideSubstitution c.name, location⟩ st'
  | escape (c : Char) : Piece.Fails run failing s location st
    (.fault (.escape c)) ⟨.escape c, location⟩ st
  | openBracket : Piece.Fails run failing s location st
    (.fault .openBracket) ⟨.openBracket, location⟩ st

/-- A run completes what another one completes, which fails only with errors that have a cause. -/
structure Run.Unwinds (Q : ScriptError → State → Prop) (x y : Run α) : Prop where
  keeps : ∀ {st a st'}, x st = .ok a st' → y st = .ok a st'
  fails : ∀ {st e st'}, x st = .error (.fault e) st' → Q e st'

/-- So for acts. -/
def Act.Unwinds (Q : ScriptError → State → Prop) (x y : ExceptT ε Run α) : Prop :=
  Run.Unwinds Q x.run y.run

/-- An act that never halts the run. -/
def Act.Steady (x : ExceptT ε Run α) : Prop := ∀ ⦃st halt st'⦄, x.run st ≠ .error halt st'

namespace Run.Unwinds

variable {Q Q' : ScriptError → State → Prop} {x y : Run α} {f g : α → Run β}

theorem pure (a : α) : Run.Unwinds Q (Pure.pure a : Run α) (Pure.pure a) :=
  ⟨id, fun h => by cases h⟩

theorem bind (hx : Run.Unwinds Q x y) (hf : ∀ a, Run.Unwinds Q (f a) (g a)) :
    Run.Unwinds Q (x >>= f) (y >>= g) := by
  constructor
  · intro st b st' h
    obtain ⟨a, st₁, ha, hb⟩ := bind_ok_iff.1 h
    exact bind_ok_iff.2 ⟨a, st₁, hx.keeps ha, (hf a).keeps hb⟩
  · intro st e st' h
    rcases bind_error_iff.1 h with h | ⟨a, st₁, -, h⟩
    · exact hx.fails h
    · exact (hf a).fails h

theorem mapM {f g : γ → Run α} {cs : List γ} (h : ∀ c ∈ cs, Run.Unwinds Q (f c) (g c)) :
    Run.Unwinds Q (cs.mapM f) (cs.mapM g) := by
  induction cs with
  | nil => exact .pure _
  | cons c rest ih =>
    obtain ⟨hc, hrest⟩ := List.forall_mem_cons.1 h
    rw [List.mapM_cons, List.mapM_cons]
    exact hc.bind fun _ => (ih hrest).bind fun _ => .pure _

end Run.Unwinds

namespace Act

namespace Steady

variable {x : ExceptT ε Run α} {f : α → ExceptT ε Run β}

theorem of_quiet {x : Act α} (hx : Act.Quiet x) : Act.Steady x := fun _ _ _ => hx.goesOn

theorem of_run (h : ∀ st, ∃ r st', x.run st = .ok r st') : Act.Steady x := by
  intro st halt st' hx
  obtain ⟨r, st₁, hr⟩ := h st
  rw [hr] at hx
  cases hx

theorem ofExcept (r : Except ε α) : Act.Steady (liftM r : ExceptT ε Run α) := by
  cases r <;> exact .of_run fun st => ⟨_, st, rfl⟩

theorem bind (hx : Act.Steady x) (hf : ∀ a, Act.Steady (f a)) : Act.Steady (x >>= f) := by
  intro st halt st' h
  rcases Run.bind_error_iff.1 h with h | ⟨r, st₁, -, h⟩
  · exact hx h
  · cases r with
    | ok a => exact hf a h
    | error e => cases h

theorem ite {c : Prop} [Decidable c] {y : ExceptT ε Run α} (hx : Act.Steady x) (hy : Act.Steady y) :
    Act.Steady (if c then x else y) := by
  split
  · exact hx
  · exact hy

theorem usage_bind (fault : UsageFault) {f : α → Act β} :
    Act.Steady ((Call.usage fault : Act α) >>= f) :=
  .of_run fun st => ⟨.error (.usage fault), st, rfl⟩

variable {call : Call}

theorem modifyScope (f : Scope → Scope) : Act.Steady (call.modifyScope f) :=
  .of_run fun st => ⟨.ok (), st.modifyScope call.scope f, rfl⟩

theorem define (name parameters body : String) : Act.Steady (call.define name parameters body) :=
  (Steady.ofExcept _).bind fun _ => .modifyScope _

end Steady

namespace Unwinds

variable {Q : ScriptError → State → Prop} {x y : ExceptT ε Run α} {f g : α → ExceptT ε Run β}

theorem of_steady (hx : Act.Steady x) : Act.Unwinds Q x x := ⟨id, fun h => (hx h).elim⟩

theorem of_quiet {x : Act α} (hx : Act.Quiet x) : Act.Unwinds Q x x := of_steady (.of_quiet hx)

theorem pure (a : α) : Act.Unwinds Q (Pure.pure a : ExceptT ε Run α) (Pure.pure a) :=
  Run.Unwinds.pure (Except.ok a)

theorem ofExcept (r : Except ε α) : Act.Unwinds Q (liftM r : ExceptT ε Run α) (liftM r) :=
  of_steady (.ofExcept r)

theorem lift {x y : Run α} (h : Run.Unwinds Q x y) :
    Act.Unwinds Q (liftM x : ExceptT ε Run α) (liftM y : ExceptT ε Run α) := by
  change Run.Unwinds Q (Except.ok <$> x) (Except.ok <$> y)
  rw [map_eq_pure_bind, map_eq_pure_bind]
  exact h.bind fun _ => .pure _

theorem bind (hx : Act.Unwinds Q x y) (hf : ∀ a, Act.Unwinds Q (f a) (g a)) :
    Act.Unwinds Q (x >>= f) (y >>= g) := by
  refine Run.Unwinds.bind hx fun r => ?_
  cases r with
  | ok a => exact hf a
  | error e => exact .pure _

theorem ite {c : Prop} [Decidable c] {x' y' : ExceptT ε Run α} (hx : Act.Unwinds Q x y)
    (hx' : Act.Unwinds Q x' y') : Act.Unwinds Q (if c then x else x') (if c then y else y') := by
  split
  · exact hx
  · exact hx'

theorem translate {k : Except ε α → ExceptT ε' Run β} (hx : Act.Unwinds Q x y)
    (hk : ∀ r, Act.Steady (k r)) :
    Act.Unwinds Q ((liftM x.run : ExceptT ε' Run (Except ε α)) >>= k)
      ((liftM y.run : ExceptT ε' Run (Except ε α)) >>= k) :=
  (lift hx).bind fun r => of_steady (hk r)

end Unwinds

end Act

theorem Piece.fault_of_mem_ofChars {f : ScriptFault} {cs : List Char}
    (h : .fault f ∈ Piece.ofChars cs) :
    f = .openBracket ∨ ∃ c, f = .escape c := by
  fun_induction Piece.ofChars cs <;> simp_all

section

variable {run run' : Runner} {s : Nat} {location : Script.Location} {p : Piece} {e : ScriptError}
  {st st' : State}

/-- The replacement of a variable fails if it has no value. -/
theorem variableValue_fails_iff {name : String} :
    variableValue s name location st = .error (.fault e) st' ↔
      Piece.Fails run run.fails s location st (.variable name) e st' := by
  rw [variableValue, Run.bind_of_ok (rfl : Run.scope s st = .ok (st.scope s) st)]
  cases hvalue : (st.scope s).bindings.get? name with
  | some value =>
    constructor
    · nofun
    · intro h
      cases h with
      | unknown hnone => cases hvalue.symm.trans hnone
  | none =>
    constructor
    · intro h
      cases h
      exact .unknown hvalue
    · intro h
      cases h with
      | unknown => rfl

/-- The replacement of a bracket group fails if its script does, or if that has no value. -/
theorem bracketValue_fails_iff {script : String} :
    bracketValue run s script location st = .error (.fault e) st' ↔
      Piece.Fails run run.fails s location st (.command script) e st' := by
  rw [bracketValue, Run.bind_error_iff, Run.mapFault_fault_iff]
  constructor
  · rintro (⟨e, h, rfl⟩ | ⟨c, st₁, h, hvalue⟩)
    · exact .command h
    · cases hc : c.value? with
      | some value =>
        rw [hc] at hvalue
        cases hvalue
      | none =>
        rw [hc] at hvalue
        cases hvalue
        exact .completion (Run.mapFault_ok_iff.1 h) hc
  · intro h
    cases h with
    | command h => exact .inl ⟨_, h, rfl⟩
    | completion h hc => exact .inr ⟨_, _, Run.mapFault_ok_iff.2 h, by rw [hc]; rfl⟩

theorem Piece.value_fails_iff (hp : ∀ f, p = .fault f → f = .openBracket ∨ ∃ c, f = .escape c) :
    p.value run s location st = .error (.fault e) st' ↔
      Piece.Fails run run.fails s location st p e st' := by
  obtain c | name | script | f := p
  · exact ⟨nofun, nofun⟩
  · exact variableValue_fails_iff
  · exact bracketValue_fails_iff
  · obtain rfl | ⟨c, rfl⟩ := hp f rfl
    all_goals
      constructor
      · intro h
        cases h
        constructor
      · intro h
        cases h
        rfl

end

/-- The errors that a command of a scope may fail with while it is carried out: those of scripts,
and those of parts of texts that are replaced at its place. What its scripts complete is completed
by `run'` too. -/
structure Unwinding (Q : ScriptError → State → Prop) (s : Nat) (location : Script.Location)
    (run run' : Runner) : Prop where
  keeps : run.Keeps run'
  script : ∀ {id script filename line st e st'}, run.fails id script filename line st e st' →
    Q e st'
  part : ∀ {p st e st'}, Piece.Fails run run.fails s location st p e st' → Q e st'

namespace Unwinding

variable {Q : ScriptError → State → Prop} {run run' : Runner} {s : Nat} {location : Script.Location}

theorem of_keeps (h : run.Keeps run') : Unwinding (fun _ _ => True) s location run run' :=
  ⟨h, fun _ => trivial, fun _ => trivial⟩

variable (h : Unwinding Q s location run run')

include h

theorem nested (id : Nat) (script filename : String) (line : Position) :
    Run.Unwinds Q (run id script filename line) (run' id script filename line) :=
  ⟨fun hrun => h.keeps hrun, fun hrun => h.script hrun⟩

theorem variableValue (name : String) :
    Run.Unwinds Q (Console.variableValue s name location) (Console.variableValue s name location) :=
  ⟨id, fun hfault => h.part (variableValue_fails_iff.1 hfault)⟩

theorem bracketValue (script : String) :
    Run.Unwinds Q (Console.bracketValue run s script location)
      (Console.bracketValue run' s script location) := by
  refine ⟨fun hdone => ?_, fun hfault => h.part (bracketValue_fails_iff.1 hfault)⟩
  obtain ⟨c, st₁, hc, hvalue⟩ := Run.bind_ok_iff.1 hdone
  exact Run.bind_ok_iff.2 ⟨c, st₁, Run.mapFault_ok_iff.2 (h.keeps (Run.mapFault_ok_iff.1 hc)),
    hvalue⟩

theorem value {p : Piece} (hp : ∀ f, p = .fault f → f = .openBracket ∨ ∃ c, f = .escape c) :
    Run.Unwinds Q (p.value run s location) (p.value run' s location) := by
  refine ⟨?_, fun hfault => h.part ((Piece.value_fails_iff hp).1 hfault)⟩
  obtain c | name | script | f := p
  · exact id
  · exact id
  · exact (h.bracketValue script).keeps
  · exact id

theorem substitute (text : String) :
    Run.Unwinds Q (Console.substitute run s text location)
      (Console.substitute run' s text location) := by
  refine (Run.Unwinds.mapM fun p hp => h.value ?_).bind fun _ => .pure _
  rintro f rfl
  exact Piece.fault_of_mem_ofChars hp

end Unwinding

theorem wordValue_keeps {run run' : Runner} (h : run.Keeps run') (s : Nat) (c : Script.Command)
    (w : Script.Word) :
    Run.Unwinds (fun _ _ => True) (wordValue run s c w) (wordValue run' s c w) := by
  unfold wordValue
  cases w.kind with
  | braced => exact .pure _
  | bracketed => exact (Unwinding.of_keeps h).bracketValue _
  | bare | quoted => exact (Unwinding.of_keeps h).substitute _

/-- What one context gives is given by another one, and it fails only for causes. -/
structure ContextUnwinds (Q : ScriptError → State → Prop) (ctx ctx' : Expr.Context Run) : Prop where
  valueOf : ∀ name, Run.Unwinds Q (ctx.valueOf name) (ctx'.valueOf name)
  runScript : ∀ script, Run.Unwinds Q (ctx.runScript script) (ctx'.runScript script)
  fillIn : ∀ text, Run.Unwinds Q (ctx.fillIn text) (ctx'.fillIn text)

section

variable {Q : ScriptError → State → Prop} {ctx ctx' : Expr.Context Run}

theorem operand_unwinds (h : ContextUnwinds Q ctx ctx') :
    ∀ o : Expr.Operand, Act.Unwinds Q (o.value ctx) (o.value ctx')
  | .number _ | .braced _ | .word _ => .pure _
  | .variable name => (Act.Unwinds.lift (h.valueOf name)).bind fun _ => .ofExcept _
  | .command script => (Act.Unwinds.lift (h.runScript script)).bind fun _ => .ofExcept _
  | .quoted text => (Act.Unwinds.lift (h.fillIn text)).bind fun _ => .ofExcept _

mutual

theorem tree_unwinds (h : ContextUnwinds Q ctx ctx') :
    ∀ t : Expr.Tree, Act.Unwinds Q (t.eval ctx) (t.eval ctx')
  | .operand o => by
    rw [Expr.Tree.eval, Expr.Tree.eval]
    exact operand_unwinds h o
  | .unary op operand => by
    rw [Expr.Tree.eval, Expr.Tree.eval]
    exact (tree_unwinds h operand).bind fun _ => .ofExcept _
  | .choice condition yes no => by
    rw [Expr.Tree.eval, Expr.Tree.eval]
    refine (tree_unwinds h condition).bind fun v => (Act.Unwinds.ofExcept _).bind fun b => ?_
    cases b with
    | true => exact tree_unwinds h yes
    | false => exact tree_unwinds h no
  | .call name args => by
    rw [Expr.Tree.eval, Expr.Tree.eval]
    exact (trees_unwind h args).bind fun _ => .ofExcept _
  | .binary op left right => by
    rw [Expr.Tree.eval, Expr.Tree.eval]
    refine (tree_unwinds h left).bind fun l => ?_
    split
    · refine (Act.Unwinds.ofExcept _).bind fun b => ?_
      cases b with
      | true => exact (tree_unwinds h right).bind fun _ =>
        (Act.Unwinds.ofExcept _).bind fun _ => .pure _
      | false => exact .pure _
    · refine (Act.Unwinds.ofExcept _).bind fun b => ?_
      cases b with
      | true => exact .pure _
      | false => exact (tree_unwinds h right).bind fun _ =>
        (Act.Unwinds.ofExcept _).bind fun _ => .pure _
    · exact (tree_unwinds h right).bind fun _ => .ofExcept _

theorem trees_unwind (h : ContextUnwinds Q ctx ctx') :
    ∀ ts : List Expr.Tree, Act.Unwinds Q (Expr.evalAll ctx ts) (Expr.evalAll ctx' ts)
  | [] => by
    rw [Expr.evalAll, Expr.evalAll]
    exact .pure _
  | t :: ts => by
    rw [Expr.evalAll, Expr.evalAll]
    exact (tree_unwinds h t).bind fun _ => (trees_unwind h ts).bind fun _ => .pure _

end

theorem expression_unwinds (h : ContextUnwinds Q ctx ctx') (source : String) :
    Act.Unwinds Q (Expr.evaluate ctx source) (Expr.evaluate ctx' source) :=
  (Act.Unwinds.ofExcept _).bind fun t => (tree_unwinds h t).bind fun _ => .pure _

end

end RadarTimeline.Console
