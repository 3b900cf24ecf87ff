import RadarTimeline.Console.Substitution
import RadarTimeline.Expr.Eval
import RadarTimeline.Proofs.Console.Run
import RadarTimeline.Proofs.Console.Trail

namespace RadarTimeline.Console

variable {ε α β : Type} {s base : Nat} {st st' : State}

/-- From a state on, a run follows a trail, whether it completes or halts. -/
structure Run.FollowsFrom (s base : Nat) (st : State) (x : Run α) : Prop where
  ends : ∀ {a st'}, x st = .ok a st' → Trail s base st st'
  halts : ∀ {halt st'}, x st = .error halt st' → Stop s base st st'

/-- A run follows a trail in a scope wherever it starts. -/
def Run.Follows (s base : Nat) (x : Run α) : Prop := ∀ st, Within s base st →
    x.FollowsFrom s base st

/-- From a state on, an act follows a trail. If it fails, the run that it is part of stops. -/
structure Act.FollowsFrom (s base : Nat) (st : State) (x : ExceptT ε Run α) : Prop where
  ends : ∀ {a st'}, x.run st = .ok (.ok a) st' → Trail s base st st'
  fails : ∀ {e st'}, x.run st = .ok (.error e) st' → Stop s base st st'
  halts : ∀ {halt st'}, x.run st = .error halt st' → Stop s base st st'

/-- An act follows a trail in a scope wherever it starts. -/
def Act.Follows (s base : Nat) (x : ExceptT ε Run α) : Prop :=
  ∀ st, Within s base st → Act.FollowsFrom s base st x

namespace Run

variable {x : Run α} {f : α → Run β}

theorem FollowsFrom.of_ok {a : α} (h : x st = .ok a st') (t : Trail s base st st') :
    x.FollowsFrom s base st := by
  constructor
  · intro a₁ st₁ h₁
    rw [h] at h₁
    cases h₁
    exact t
  · intro halt st₁ h₁
    rw [h] at h₁
    cases h₁

theorem FollowsFrom.after {y : Run α} (t : Trail s base st st') (h : x st = y st')
    (hy : y.FollowsFrom s base st') : x.FollowsFrom s base st :=
  ⟨fun hx => t.trans (hy.ends (h.symm.trans hx)), fun hx => t.stop (hy.halts (h.symm.trans hx))⟩

theorem FollowsFrom.bind (hx : x.FollowsFrom s base st)
    (hf : ∀ a st₁, x st = .ok a st₁ → (f a).FollowsFrom s base st₁) :
    (x >>= f).FollowsFrom s base st := by
  cases hr : x st with
  | ok a st₁ => exact .after (hx.ends hr) (bind_of_ok hr) (hf a st₁ hr)
  | error halt st₁ =>
    have hbind : (x >>= f) st = .error halt st₁ := bind_of_error hr
    constructor
    · intro b st' h
      rw [hbind] at h
      cases h
    · intro halt' st' h
      rw [hbind] at h
      cases h
      exact hx.halts hr

theorem Follows.bind (hx : x.Follows s base) (hf : ∀ a, (f a).Follows s base) :
    (x >>= f).Follows s base := fun st hw =>
  (hx st hw).bind fun a st₁ h => hf a st₁ (((hx st hw).ends h).within hw)

theorem Follows.pure (a : α) : (Pure.pure a : Run α).Follows s base := fun st _ =>
  .of_ok (rfl : (Pure.pure a : Run α) st = .ok a st) (.nil ..)

theorem Follows.throw (halt : Halt) : (MonadExcept.throw halt : Run α).Follows s base := fun _ _ =>
  ⟨nofun, fun h => by cases h; exact .after (.nil ..)⟩

theorem Follows.halt (fault : ScriptFault) (location : Script.Location) :
    (Run.halt fault location : Run α).Follows s base := .throw _

theorem Follows.scope (id : Nat) : (Run.scope id).Follows s base := fun st _ =>
  .of_ok (rfl : Run.scope id st = .ok (st.scope id) st) (.nil ..)

theorem Follows.mapFault (g : ScriptError → ScriptError) (hx : x.Follows s base) :
    (mapFault g x).Follows s base := by
  intro st hw
  have hfrom := hx st hw
  cases hr : x st with
  | ok a st₁ => exact .of_ok (mapFault_ok_iff.2 hr) (hfrom.ends hr)
  | error halt st₁ =>
    obtain ⟨halt', hmap⟩ := mapFault_of_error (g := g) hr
    constructor <;> intro _ _ h <;> rw [hmap] at h <;> cases h
    exact hfrom.halts hr

theorem Follows.mapM {γ : Type} {g : γ → Run α} (h : ∀ c, (g c).Follows s base) (cs : List γ) :
    (cs.mapM g).Follows s base := by
  induction cs with
  | nil => exact .pure _
  | cons c rest ih =>
    rw [List.mapM_cons]
    exact (h c).bind fun _ => ih.bind fun _ => .pure _

end Run

namespace Act

variable {x : ExceptT ε Run α} {f : α → ExceptT ε Run β}

theorem FollowsFrom.of_ok {a : α} (h : x.run st = .ok (.ok a) st') (t : Trail s base st st') :
    FollowsFrom s base st x := by
  refine ⟨?_, ?_, ?_⟩ <;> intro _ _ h₁ <;> rw [h] at h₁ <;> cases h₁
  exact t

theorem FollowsFrom.after {y : ExceptT ε Run α} (t : Trail s base st st') (h : x.run st = y.run st')
    (hy : FollowsFrom s base st' y) : FollowsFrom s base st x :=
  ⟨fun hx => t.trans (hy.ends (h.symm.trans hx)), fun hx => t.stop (hy.fails (h.symm.trans hx)),
    fun hx => t.stop (hy.halts (h.symm.trans hx))⟩

theorem FollowsFrom.bind (hx : FollowsFrom s base st x)
    (hf : ∀ a st₁, x.run st = .ok (.ok a) st₁ → FollowsFrom s base st₁ (f a)) :
    FollowsFrom s base st (x >>= f) := by
  cases hr : x.run st with
  | ok r st₁ =>
    cases r with
    | ok a => exact .after (hx.ends hr) (bind_of_ok hr) (hf a st₁ hr)
    | error e =>
      have hbind : (x >>= f).run st = .ok (.error e) st₁ := bind_of_fault hr
      refine ⟨?_, ?_, ?_⟩ <;> intro _ _ h <;> rw [hbind] at h <;> cases h
      exact hx.fails hr
  | error halt st₁ =>
    have hbind : (x >>= f).run st = .error halt st₁ := bind_of_halt hr
    refine ⟨?_, ?_, ?_⟩ <;> intro _ _ h <;> rw [hbind] at h <;> cases h
    exact hx.halts hr

theorem Follows.bind (hx : Follows s base x) (hf : ∀ a, Follows s base (f a)) :
    Follows s base (x >>= f) := fun st hw =>
  (hx st hw).bind fun a st₁ h => hf a st₁ (((hx st hw).ends h).within hw)

theorem Follows.pure (a : α) : Follows s base (Pure.pure a : ExceptT ε Run α) := fun st _ =>
  .of_ok (rfl : (Pure.pure a : ExceptT ε Run α).run st = .ok (.ok a) st) (.nil ..)

theorem Follows.throw (e : ε) : Follows s base (MonadExcept.throw e : ExceptT ε Run α) := fun _ _ =>
  ⟨nofun, fun h => by cases h; exact .after (.nil ..), nofun⟩

theorem Follows.ofExcept (r : Except ε α) : Follows s base (liftM r : ExceptT ε Run α) := by
  cases r with
  | ok a => exact .pure a
  | error e => exact .throw e

theorem Follows.lift {x : Run α} (hx : x.Follows s base) :
    Follows s base (liftM x : ExceptT ε Run α) := by
  intro st hw
  have hfrom := hx st hw
  cases hr : x st with
  | ok a st₁ => exact .of_ok (lift_of_ok hr) (hfrom.ends hr)
  | error halt st₁ =>
    have hlift : (liftM x : ExceptT ε Run α).run st = .error halt st₁ := lift_of_error hr
    refine ⟨?_, ?_, ?_⟩ <;> intro _ _ h <;> rw [hlift] at h <;> cases h
    exact hfrom.halts hr

theorem Follows.translate {ε' : Type} {k : Except ε α → ExceptT ε' Run β} (hx : Follows s base x)
    (hok : ∀ a, Follows s base (k (.ok a)))
    (herror : ∀ e, ∃ e', k (.error e) = MonadExcept.throw e') :
    Follows s base ((liftM x.run : ExceptT ε' Run (Except ε α)) >>= k) := by
  intro st hw
  have hfrom := hx st hw
  cases hr : x.run st with
  | ok r st₁ =>
    have hbind : ((liftM x.run : ExceptT ε' Run (Except ε α)) >>= k).run st = (k r).run st₁ :=
      bind_of_ok (lift_of_ok hr)
    cases r with
    | ok a => exact .after (hfrom.ends hr) hbind (hok a st₁ ((hfrom.ends hr).within hw))
    | error e =>
      obtain ⟨e', hk⟩ := herror e
      refine ⟨?_, ?_, ?_⟩ <;> intro _ _ h <;> rw [hbind, hk] at h <;> cases h
      exact hfrom.fails hr
  | error halt st₁ =>
    have hbind : ((liftM x.run : ExceptT ε' Run (Except ε α)) >>= k).run st = .error halt st₁ :=
      bind_of_halt (lift_of_error hr)
    refine ⟨?_, ?_, ?_⟩ <;> intro _ _ h <;> rw [hbind] at h <;> cases h
    exact hfrom.halts hr

end Act

/-- All scripts that are run follow trails in their scopes. -/
def Runner.Follows (run : Runner) : Prop :=
  ∀ s base script filename line, (run s script filename line).Follows s base

/-- What a context does follows trails. -/
structure ContextFollows (s base : Nat) (ctx : Expr.Context Run) : Prop where
  valueOf : ∀ name, (ctx.valueOf name).Follows s base
  runScript : ∀ script, (ctx.runScript script).Follows s base
  fillIn : ∀ text, (ctx.fillIn text).Follows s base

section

variable {run : Runner}

theorem variableValue_follows (name : String) (location : Script.Location) :
    (variableValue s name location).Follows s base := by
  refine (Run.Follows.scope s).bind fun sc => ?_
  split
  · exact .pure _
  · exact .halt _ _

theorem bracketValue_follows (hrun : run.Follows) (script : String) (location : Script.Location) :
    (bracketValue run s script location).Follows s base := by
  refine (Run.Follows.mapFault _ (hrun s base script _ _)).bind fun completion => ?_
  split
  · exact .pure _
  · exact .halt _ _

theorem Piece.value_follows (hrun : run.Follows) (location : Script.Location) :
    ∀ p : Piece, (p.value run s location).Follows s base
  | .literal _ => .pure _
  | .variable name => variableValue_follows name location
  | .command script => bracketValue_follows hrun script location
  | .fault f => .halt f location

theorem substitute_follows (hrun : run.Follows) (text : String) (location : Script.Location) :
    (substitute run s text location).Follows s base :=
  (Run.Follows.mapM (Piece.value_follows hrun location) _).bind fun _ => .pure _

theorem wordValue_follows (hrun : run.Follows) (c : Script.Command) (w : Script.Word) :
    (wordValue run s c w).Follows s base := by
  unfold wordValue
  split
  · exact .pure _
  · exact bracketValue_follows hrun _ _
  all_goals exact substitute_follows hrun _ _

variable {ctx : Expr.Context Run}

theorem operand_follows (h : ContextFollows s base ctx) :
    ∀ o : Expr.Operand, Act.Follows s base (o.value ctx)
  | .number _ | .braced _ | .word _ => .pure _
  | .variable name => (Act.Follows.lift (h.valueOf name)).bind fun _ => .ofExcept _
  | .command script => (Act.Follows.lift (h.runScript script)).bind fun _ => .ofExcept _
  | .quoted text => (Act.Follows.lift (h.fillIn text)).bind fun _ => .ofExcept _

mutual

theorem tree_follows (h : ContextFollows s base ctx) :
    ∀ t : Expr.Tree, Act.Follows s base (t.eval ctx)
  | .operand o => by
    rw [Expr.Tree.eval]
    exact operand_follows h o
  | .unary op operand => by
    rw [Expr.Tree.eval]
    exact (tree_follows h operand).bind fun _ => .ofExcept _
  | .choice condition yes no => by
    rw [Expr.Tree.eval]
    refine (tree_follows h condition).bind fun v => (Act.Follows.ofExcept _).bind fun b => ?_
    split
    · exact tree_follows h yes
    · exact tree_follows h no
  | .call name args => by
    rw [Expr.Tree.eval]
    exact (trees_follow h args).bind fun _ => .ofExcept _
  | .binary op left right => by
    rw [Expr.Tree.eval]
    refine (tree_follows h left).bind fun l => ?_
    split
    · refine (Act.Follows.ofExcept _).bind fun b => ?_
      split
      · exact (tree_follows h right).bind fun r => (Act.Follows.ofExcept _).bind fun _ => .pure _
      · exact .pure _
    · refine (Act.Follows.ofExcept _).bind fun b => ?_
      split
      · exact .pure _
      · exact (tree_follows h right).bind fun r => (Act.Follows.ofExcept _).bind fun _ => .pure _
    · exact (tree_follows h right).bind fun r => .ofExcept _

theorem trees_follow (h : ContextFollows s base ctx) :
    ∀ ts : List Expr.Tree, Act.Follows s base (Expr.evalAll ctx ts)
  | [] => by
    rw [Expr.evalAll]
    exact .pure _
  | t :: ts => by
    rw [Expr.evalAll]
    exact (tree_follows h t).bind fun _ => (trees_follow h ts).bind fun _ => .pure _

end

theorem expression_follows (h : ContextFollows s base ctx) (source : String) :
    Act.Follows s base (Expr.evaluate ctx source) :=
  (Act.Follows.ofExcept _).bind fun t => (tree_follows h t).bind fun _ => .pure _

end

end RadarTimeline.Console
