import RadarTimeline.Proofs.Console.Interpreter

namespace RadarTimeline.Console

variable {α : Type} {s base : Nat} {st st' : State} {call : Call} {p : Procedure}
    {args : List String}
  {entry : Nat}

theorem Run.Follows.isolated {x : Run α} (hx : x.Follows s base) (hw : Within s base st)
    (h : x.LeadsTo st st') : Isolated s base st st' := by
  rcases h with ⟨a, h⟩ | ⟨halt, h⟩
  · exact ((hx st hw).ends h).isolated hw
  · exact ((hx st hw).halts h).isolated hw

theorem Isolated.log_isPrefix (h : Isolated s (st.scope s).log.size st st') :
    (st.scope s).log.toList <+: (st'.scope s).log.toList := by
  rw [List.prefix_iff_getElem?]
  intro i hi
  have hi' : i < (st.scope s).log.size := by simpa using hi
  rw [Array.getElem?_toList, h.entries i hi', Array.getElem?_eq_getElem hi', Array.getElem_toList]

/-- What a scope keeps when one of its calls ends. -/
structure Undisturbed (before after : Scope) : Prop where
  bindings : after.bindings = before.bindings
  procedures : after.procedures = before.procedures
  args : after.state.args = before.state.args
  site : after.state.site = before.state.site
  antenna : after.state.antenna = before.state.antenna

namespace Call

theorem caller_of_body (hrun : call.run.Follows) (hs : call.scope < st.scopes.size) {name : String}
    {bindings : List (String × String)} {st₁ : State}
    (h : (call.run st.scopes.size p.body p.filename p.line).LeadsTo
      (st.openCall call.scope entry name bindings) st₁) :
    ∃ log, st₁.scope call.scope = { st.scope call.scope with log } := by
  have hisolated := (hrun st.scopes.size 0 p.body p.filename p.line).isolated (.openCall ..) h
  rw [hisolated.others call.scope (by simpa using Nat.lt_succ_of_lt hs) (Nat.ne_of_lt hs),
    st.scope_openCall entry name bindings hs]
  exact ⟨_, rfl⟩

theorem procedure_of_halt {bindings : List (String × String)} {halt : Halt}
    (hbind : p.bind? args = some bindings)
    (h : call.run st.scopes.size p.body p.filename p.line
      (st.openCall call.scope entry s!"proc {p.name}" bindings) = .error halt st') :
    (call.procedure p args entry).run st = .error halt st' :=
  (procedure_run call p args entry hbind st).trans (Act.bind_of_halt (Act.lift_of_error h))

theorem procedure_of_ok {bindings : List (String × String)} {c : Completion} {st₁ : State}
    (hbind : p.bind? args = some bindings)
    (h : call.run st.scopes.size p.body p.filename p.line
      (st.openCall call.scope entry s!"proc {p.name}" bindings) = .ok c st₁) :
    (call.procedure p args entry).run st =
      (leave c).run (st₁.closeCall call.scope st.scopes.size) := by
  rw [procedure_run call p args entry hbind st, Act.bind_of_ok (Act.lift_of_ok h), finish_run]

theorem undisturbed_of_procedure (hrun : call.run.Follows) (hs : call.scope < st.scopes.size)
    (h : Run.LeadsTo (call.procedure p args entry).run st st') :
    Undisturbed (st.scope call.scope) (st'.scope call.scope) := by
  cases hbind : p.bind? args with
  | none =>
    have hrefuse : (call.procedure p args entry).run st =
      .ok (.error (.usage (.wrongArguments p.usage))) st := by
      unfold procedure
      rw [hbind]
      rfl
    have hsame : st' = st := by
      rcases h with ⟨r, h⟩ | ⟨halt, h⟩ <;> rw [hrefuse] at h <;> cases h
      rfl
    exact hsame ▸ ⟨rfl, rfl, rfl, rfl, rfl⟩
  | some bindings =>
    cases hbody : call.run st.scopes.size p.body p.filename p.line
        (st.openCall call.scope entry s!"proc {p.name}" bindings) with
    | ok c st₁ =>
      obtain ⟨log, hcaller⟩ := caller_of_body hrun hs (.inl ⟨c, hbody⟩)
      rw [Run.LeadsTo, procedure_of_ok hbind hbody] at h
      have hscopes : st'.scopes = (st₁.closeCall call.scope st.scopes.size).scopes := by
        rcases h with ⟨r, h⟩ | ⟨halt, h⟩
        · exact ((leave_quiet c).shows h).scopes
        · exact ((leave_quiet c).goesOn h).elim
      have hsize : call.scope < st₁.scopes.size := by
        have := ((hrun st.scopes.size 0 _ _ _).isolated (.openCall ..) (.inl ⟨c, hbody⟩)).size_le
        rw [State.size_openCall] at this
        omega
      have hscope : st'.scope call.scope =
          { st₁.scope call.scope with
            state := (st₁.session call.scope).merge (st₁.session st.scopes.size) } := by
        rw [State.scope, hscopes]
        exact st₁.scope_modifyScope _ hsize
      rw [hscope, hcaller]
      have hsession : st₁.session call.scope = (st.scope call.scope).state :=
        (congrArg Scope.state hcaller :)
      rw [hsession]
      exact ⟨rfl, rfl, rfl, rfl, rfl⟩
    | error halt st₁ =>
      obtain ⟨log, hcaller⟩ := caller_of_body hrun hs (.inr ⟨halt, hbody⟩)
      have hsame : st' = st₁ := by
        rcases h with ⟨r, h⟩ | ⟨halt', h⟩ <;> rw [procedure_of_halt hbind hbody] at h <;> cases h
        rfl
      rw [hsame, hcaller]
      exact ⟨rfl, rfl, rfl, rfl, rfl⟩

end Call

/-- A script that runs in a scope, whether it completes or halts, changes no other scope that was
there, and of its own scope neither the parent nor the inherited procedures nor an entry of the log.
So a procedure call leaves its caller's variables, procedures, arguments and place as they were, and
if the body halts all that the caller has loaded too. -/
theorem runs_are_isolated (setup : Setup) (depth : Nat) :
    (∀ (s : Nat) (script filename : String) (line : Position) (st st' : State), s < st.scopes.size →
      (runNested setup depth s script filename line).LeadsTo st st' →
        st.scopes.size ≤ st'.scopes.size ∧
        (∀ id < st.scopes.size, id ≠ s → st'.scope id = st.scope id) ∧
        (st'.scope s).parent = (st.scope s).parent ∧
        (st'.scope s).inherited = (st.scope s).inherited ∧
        (st.scope s).log.toList <+: (st'.scope s).log.toList) ∧
    ∀ (call : Call) (p : Procedure) (args : List String) (entry : Nat) (st st' : State),
      call.run = runNested setup depth → call.scope < st.scopes.size →
        (Run.LeadsTo (call.procedure p args entry).run st st' →
          Undisturbed (st.scope call.scope) (st'.scope call.scope)) ∧
        ∀ bindings halt, p.bind? args = some bindings →
          call.run st.scopes.size p.body p.filename p.line
            (st.openCall call.scope entry s!"proc {p.name}" bindings) = .error halt st' →
          (call.procedure p args entry).run st = .error halt st' ∧
            (st'.scope call.scope).state = (st.scope call.scope).state := by
  have hfollows := runNested_follows setup depth
  constructor
  · intro s script filename line st st' hs h
    have hisolated := (hfollows s _ script filename line).isolated ⟨hs, le_rfl⟩ h
    exact ⟨hisolated.size_le, hisolated.others, hisolated.parent, hisolated.inherited,
      hisolated.log_isPrefix⟩
  · intro call p args entry st st' hcall hs
    have hrun : call.run.Follows := hcall ▸ hfollows
    refine ⟨Call.undisturbed_of_procedure hrun hs, fun bindings halt hbind hbody => ?_⟩
    obtain ⟨log, hcaller⟩ := Call.caller_of_body hrun hs (.inr ⟨halt, hbody⟩)
    exact ⟨Call.procedure_of_halt hbind hbody, (congrArg Scope.state hcaller :)⟩

def failing : Procedure := ⟨"f", ⟨[], false⟩, "loadfilter a.fil 1; missing", consoleName, 1⟩

/-- A command that calls it from the root scope. -/
def failingCall : Call where
  setup := ⟨.empty, {}, "eros", "tcl"⟩
  run := runNested ⟨.empty, {}, "eros", "tcl"⟩ 4
  scope := 0
  command := ⟨consoleName, ⟨.bare, "f", 1, 1, 1⟩, []⟩
  entry := 0

theorem failing_isolated : ∃ halt st',
    (runNested ⟨.empty, {}, "eros", "tcl"⟩ 4 1 failing.body consoleName 1).LeadsTo
      ((State.initial .uhf "32m").openCall 0 0 "proc f" []) st' ∧
    st'.scope 0 = ((State.initial .uhf "32m").openCall 0 0 "proc f" []).scope 0 ∧
    (failingCall.procedure failing [] 0).run (State.initial .uhf "32m") = .error halt st' ∧
    (st'.scope 0).state = ((State.initial .uhf "32m").scope 0).state := by
  have hdone : Run.completes (failingCall.run 1 failing.body consoleName 1
      ((State.initial .uhf "32m").openCall 0 0 "proc f" [])) = false := by decide +kernel
  obtain ⟨halt, st', h⟩ := Run.exists_error hdone
  have hisolated := runs_are_isolated ⟨.empty, {}, "eros", "tcl"⟩ 4
  have hleads := (hisolated.1 1 failing.body consoleName 1 _ st' (by decide) (.inr ⟨halt, h⟩)).2.1
  obtain ⟨hhalt, hstate⟩ := (hisolated.2 failingCall failing [] 0 (State.initial .uhf "32m") st' rfl
    (by decide)).2 [] halt (by decide) h
  exact ⟨halt, st', .inr ⟨halt, h⟩, hleads 0 (by decide) (by decide), hhalt, hstate⟩

end RadarTimeline.Console
