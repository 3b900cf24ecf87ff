import RadarTimeline.Console.Procedure
import RadarTimeline.Proofs.Console.Commands
import RadarTimeline.Proofs.Script.Steps
import RadarTimeline.Proofs.Timing.Toggle

namespace RadarTimeline.Console

namespace Signature

variable {s : Signature} {p : Parameter} {ps : List Parameter} {args elements : List String}

/-- Parameters that have to be given stand in front of those with a default. -/
def DefaultsLast (ps : List Parameter) : Prop :=
  ps.Pairwise fun p q => p.fallback.isSome → q.fallback.isSome

def required (ps : List Parameter) : Nat := ps.countP (·.fallback.isNone)

/-- There are too few arguments, or more than anything takes. -/
def Refuses (s : Signature) (count : Nat) : Prop :=
  count < required s.parameters ∨ s.collects = false ∧ s.parameters.length < count

instance (s : Signature) (count : Nat) : Decidable (s.Refuses count) :=
  inferInstanceAs (Decidable (_ ∨ _))

/-- The variables of a call in order: each parameter with the argument in its place or its default,
then the list of what is left. -/
def bound (s : Signature) (args : List String) : List (String × String) :=
  s.parameters.mapIdx (fun i p => (p.name, args[i]?.getD (p.fallback.getD ""))) ++
    if s.collects then [(collector, Script.listText (args.drop s.parameters.length))] else []

theorem readAfter_cons {defaulted : Bool} {element : String}
    (h : readAfter defaulted (element :: elements) = .ok s) :
    s.parameters = [] ∨
      (∃ name rest, defaulted = false ∧ readAfter false elements = .ok rest ∧
        s = rest.cons ⟨name, none⟩) ∨
      ∃ name fallback rest, readAfter true elements = .ok rest ∧
      s = rest.cons ⟨name, some fallback⟩ := by
  rw [readAfter] at h
  obtain ⟨words, -, h⟩ := bind_eq_ok_iff.1 h
  split at h
  · next name =>
    split_ifs at h with hcollects hdefaulted
    · cases h
      exact .inl rfl
    · obtain ⟨rest, hrest, h⟩ := bind_eq_ok_iff.1 h
      cases h
      exact .inr (.inl ⟨name, rest, by simpa using hdefaulted, hrest, rfl⟩)
  · next name fallback =>
    obtain ⟨rest, hrest, h⟩ := bind_eq_ok_iff.1 h
    cases h
    exact .inr (.inr ⟨name, fallback, rest, hrest, rfl⟩)
  · cases h

theorem readAfter_defaultsLast {defaulted : Bool} (h : readAfter defaulted elements = .ok s) :
    DefaultsLast s.parameters ∧ (defaulted = true → ∀ p ∈ s.parameters, p.fallback.isSome) := by
  induction elements generalizing defaulted s with
  | nil =>
    cases h
    exact ⟨.nil, by simp⟩
  | cons element elements ih =>
    obtain hnil | ⟨name, rest, rfl, hrest, rfl⟩ | ⟨name, fallback, rest, hrest, rfl⟩ :=
      readAfter_cons h
    · rw [hnil]
      exact ⟨.nil, by simp⟩
    · exact ⟨.cons (by simp) (ih hrest).1, by simp⟩
    · obtain ⟨hlast, hdefaults⟩ := ih hrest
      refine ⟨.cons (fun q hq _ => hdefaults rfl q hq) hlast, fun _ => ?_⟩
      exact List.forall_mem_cons.2 ⟨rfl, hdefaults rfl⟩

theorem read_defaultsLast {text : String} (h : read text = .ok s) : DefaultsLast s.parameters := by
  obtain ⟨elements, -, h⟩ := bind_eq_ok_iff.1 h
  exact (readAfter_defaultsLast h).1

theorem required_cons_eq_zero (h : DefaultsLast (p :: ps)) (hp : p.fallback.isSome) :
    required (p :: ps) = 0 := by
  have hall : ∀ q ∈ p :: ps, q.fallback.isSome :=
    List.forall_mem_cons.2 ⟨hp, fun q hq => List.rel_of_pairwise_cons h hq hp⟩
  exact List.countP_eq_zero.2 fun q hq => by simp [Option.isSome_iff_ne_none.1 (hall q hq)]

theorem refuses_cons_succ {collects : Bool} {count : Nat} (h : DefaultsLast (p :: ps)) :
    Refuses ⟨p :: ps, collects⟩ (count + 1) ↔ Refuses ⟨ps, collects⟩ count := by
  cases hp : p.fallback with
  | none => simp [Refuses, required, hp]
  | some value =>
    have hzero := required_cons_eq_zero h (by rw [hp]; rfl)
    have hrest : required ps = 0 := by simpa [required, hp] using hzero
    simp [Refuses, hzero, hrest]

theorem refuses_zero_iff {collects : Bool} (h : DefaultsLast ps) :
    Refuses ⟨ps, collects⟩ 0 ↔ ∃ p ∈ ps.head?, p.fallback = none := by
  cases ps with
  | nil => simp [Refuses, required]
  | cons p ps =>
    cases hp : p.fallback with
    | none => simp [Refuses, required, hp]
    | some value => simp [Refuses, required_cons_eq_zero h (by rw [hp]; rfl), hp]

/-- Variables are bound for as many arguments as are not refused. -/
theorem bind?_eq (collects : Bool) (h : DefaultsLast ps) (args : List String) :
    bind? collects ps args =
      if Refuses ⟨ps, collects⟩ args.length then none else some (bound ⟨ps, collects⟩ args) := by
  induction ps generalizing args with
  | nil => cases args <;> cases collects <;> rfl
  | cons p ps ih =>
    have hps : DefaultsLast ps := List.Pairwise.of_cons h
    rw [bind?.eq_def]
    cases args with
    | cons arg args =>
      simp only [List.length_cons, refuses_cons_succ h, ih hps]
      split
      · rfl
      · simp [bound, List.mapIdx_cons]
    | nil =>
      simp only [List.length_nil, refuses_zero_iff h, ih hps, refuses_zero_iff hps]
      cases hp : p.fallback with
      | none => simp [hp]
      | some value =>
        have hhead : ¬∃ q ∈ ps.head?, q.fallback = none := by
          rintro ⟨q, hq, hnone⟩
          have hsome := List.rel_of_pairwise_cons h (List.mem_of_head? hq) (by rw [hp]; rfl)
          rw [hnone] at hsome
          cases hsome
        rw [if_neg hhead]
        simp [bound, List.mapIdx_cons, hp]

end Signature

theorem Table.get?_setAll {α : Type} (t : Table α) (entries : List (String × α)) (x : String) :
    (t.setAll entries).get? x = (entries.reverse.lookup x).or (t.get? x) := by
  induction entries using List.reverseRecOn with
  | nil => rfl
  | append_singleton entries e ih =>
    rw [setAll, List.foldl_append, List.foldl_cons, List.foldl_nil, ← setAll, get?_set, ih,
      List.reverse_concat, List.lookup_cons]
    by_cases hx : x = e.1
    · simp [hx]
    · have hne : (x == e.1) = false := by simpa using hx
      simp [hx, hne]

variable {call : Call} {p : Procedure} {args : List String} {entry : Nat} {st st₀ : State}
    {x : Act Completion}

/-- The acts that call a procedure: a command of its name, and one that calls it as a block. -/
inductive Call.Calls (call : Call) (st : State) (p : Procedure) (args : List String) (entry : Nat) :
    Act Completion → Prop
  | procedure : Calls call st p args entry (call.procedure p args entry)
  | block {name : String} (h : (st.scope call.scope).procedure? name = some p) :
    Calls call st p args entry (call.block (name :: args) entry)

/-- The state in which the body of a call starts. There is one more scope, to which an entry of the
caller's log leads; its variables are the caller's, but for those that the call gives a value. -/
structure Opens (st : State) (caller entry : Nat) (name : String) (given : List (String × String))
    (st₀ : State) : Prop where
  size : st₀.scopes.size = st.scopes.size + 1
  trace : st₀.trace = st.trace
  others : ∀ id < st.scopes.size, id ≠ caller → st₀.scope id = st.scope id
  link : st₀.scope caller = { st.scope caller with
    log := (st.scope caller).log.modify entry (fun e => { e with call := some st.scopes.size }) }
  child : st₀.scope st.scopes.size = (st.scope caller).child caller name given
  values : ∀ x, (st₀.scope st.scopes.size).bindings.get? x =
    (given.reverse.lookup x).or ((st.scope caller).bindings.get? x)

theorem opens_openCall (hs : call.scope < st.scopes.size) (entry : Nat) (name : String)
    (given : List (String × String)) :
    Opens st call.scope entry name given (st.openCall call.scope entry name given) where
  size := st.size_openCall ..
  trace := rfl
  others _ hid hne := st.scope_openCall_ne entry name given hid hne
  link := st.scope_openCall entry name given hs
  child := st.scope_openCall_child entry name given hs
  values x := by
    rw [st.scope_openCall_child entry name given hs]
    exact Table.get?_setAll _ given x

namespace Call

theorem Calls.run_eq (h : call.Calls st p args entry x) :
    x.run st = (call.procedure p args entry).run st := by
  cases h with
  | procedure => rfl
  | block h =>
    refine (Act.bind_of_ok (Act.lift_of_ok (rfl : Run.scope call.scope st =
      .ok (st.scope call.scope) st))).trans ?_
    simp only [List.headD_cons, h, List.tail_cons]

theorem procedure_refused (h : p.bind? args = none) :
    (call.procedure p args entry).run st = .ok (.error (.usage (.wrongArguments p.usage))) st := by
  rw [procedure, h]
  rfl

theorem finish_not_refused (child : Nat) {body : Run Completion} {usage : String} {st' : State} :
    ((liftM body : Act Completion) >>= call.finish child).run st₀ ≠
      .ok (.error (.usage (.wrongArguments usage))) st' := by
  cases hbody : body st₀ with
  | error halt st₁ =>
    rw [Act.bind_of_halt (Act.lift_of_error hbody)]
    exact nofun
  | ok c st₁ =>
    rw [Act.bind_of_ok (Act.lift_of_ok hbody), finish_run]
    cases c <;> exact nofun

end Call

/-- A call is refused exactly if there are fewer arguments than parameters that have to be given, or
more than parameters and no collector, and then nothing is changed. A call that is not refused runs
its body in one new scope, where the parameters in order have the arguments in their places or else
their defaults. -/
theorem calls_bind_arguments {text : String} (hread : Signature.read text = .ok p.signature)
    (hs : call.scope < st.scopes.size) (hx : call.Calls st p args entry x) :
    ((∃ usage st', x.run st = .ok (.error (.usage (.wrongArguments usage))) st') ↔
      args.length < Signature.required p.signature.parameters ∨
        p.signature.collects = false ∧ p.signature.parameters.length < args.length) ∧
    (p.signature.Refuses args.length →
      x.run st = .ok (.error (.usage (.wrongArguments p.usage))) st) ∧
    (¬p.signature.Refuses args.length →
      ∃ st₀, Opens st call.scope entry s!"proc {p.name}" (p.signature.bound args) st₀ ∧
        x.run st = ((liftM (call.run st.scopes.size p.body p.filename p.line) : Act Completion) >>=
          call.finish st.scopes.size).run st₀) := by
  have hbind := Signature.bind?_eq p.signature.collects (Signature.read_defaultsLast hread) args
  rw [hx.run_eq]
  by_cases h : p.signature.Refuses args.length
  · have hrefused : (call.procedure p args entry).run st =
      .ok (.error (.usage (.wrongArguments p.usage))) st :=
      Call.procedure_refused (hbind.trans (if_pos h))
    exact ⟨⟨fun _ => h, fun _ => ⟨_, _, hrefused⟩⟩, fun _ => hrefused, fun hn => (hn h).elim⟩
  · have hrun := Call.procedure_run call p args entry (hbind.trans (if_neg h)) st
    refine ⟨⟨?_, fun hr => (h hr).elim⟩, fun hr => (h hr).elim, fun _ =>
      ⟨_, opens_openCall hs entry _ _, hrun⟩⟩
    rintro ⟨usage, st', hrefused⟩
    exact (Call.finish_not_refused _ (hrun.symm.trans hrefused)).elim

def repeating : Procedure :=
  ⟨"f", ⟨[⟨"a", none⟩, ⟨"b", some "1"⟩, ⟨"a", some ""⟩], true⟩, "return $a", consoleName, 1⟩

/-- The default of the second `a` hides the argument of the first. -/
theorem repeating_binds_defaults :
    Signature.read "a \x7bb 1\x7d \x7ba \x7b\x7d\x7d args" = .ok repeating.signature ∧
      repeating.signature.Refuses 0 ∧ ¬repeating.signature.Refuses 1 ∧
      (consoleCall "f").Calls (.initial .uhf "UHF") repeating ["5"] 0
        ((consoleCall "f").procedure repeating ["5"] 0) ∧
      ((consoleCall "f").procedure repeating [] 0).run (.initial .uhf "UHF") =
        .ok (.error (.usage (.wrongArguments "f a ?b? ?a? ?arg ...?"))) (.initial .uhf "UHF") ∧
      ∃ st₀, ((consoleCall "f").procedure repeating ["5"] 0).run (.initial .uhf "UHF") =
          ((liftM ((consoleCall "f").run 1 repeating.body consoleName 1) : Act Completion) >>=
            (consoleCall "f").finish 1).run st₀ ∧
        (st₀.scope 1).bindings.get? "a" = some "" ∧ (st₀.scope 1).bindings.get? "b" = some "1" ∧
        (st₀.scope 1).bindings.get? "args" = some "" := by
  have hread : Signature.read "a \x7bb 1\x7d \x7ba \x7b\x7d\x7d args" = .ok repeating.signature :=
    Script.ok_of_toOption (by decide +kernel)
  have hscope : (consoleCall "f").scope < (State.initial .uhf "UHF").scopes.size := by decide
  have hcalls (args : List String) : (consoleCall "f").Calls (.initial .uhf "UHF") repeating args 0
      ((consoleCall "f").procedure repeating args 0) := .procedure
  have hone := calls_bind_arguments hread hscope (hcalls ["5"])
  have hnone := calls_bind_arguments hread hscope (hcalls [])
  obtain ⟨st₀, hopens, hrun⟩ := hone.2.2 (by decide)
  exact ⟨hread, by decide, by decide, hcalls _, hnone.2.1 (by decide), st₀, hrun, hopens.values "a",
    hopens.values "b", hopens.values "args"⟩

end RadarTimeline.Console
