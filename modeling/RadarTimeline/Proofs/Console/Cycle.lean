import RadarTimeline.Console.Operators
import RadarTimeline.Proofs.Console.Run

namespace RadarTimeline.Console

def Completion.target? : Completion → Option (List String)
  | .jump words => some words
  | _ => none

abbrev Outcome (α : Type) := EStateM.Result Halt State (Except CommandFault α)

variable {α σ : Type} {st st₁ st₂ : State}

/-- An act ends without a value. -/
inductive Act.Stops {β : Type} (x : Act α) (st : State) : Outcome β → Prop
  | fault {e : CommandFault} {st' : State} (h : x.run st = .ok (.error e) st') :
    Stops x st (.ok (.error e) st')
  | halt {halt : Halt} {st' : State} (h : x.run st = .error halt st') : Stops x st (.error halt st')

theorem Act.Stops.bind {β : Type} {x : Act α} {f : α → Act β} {r : Outcome β} (h : x.Stops st r) :
    (x >>= f).run st = r := by
  cases h with
  | fault h => exact bind_of_fault h
  | halt h => exact bind_of_halt h

theorem Act.exists_run {β : Type} (x : Act α) (st : State) :
    (∃ a st', x.run st = .ok (.ok a) st') ∨ ∃ r : Outcome β, x.Stops st r := by
  cases hr : x.run st with
  | ok r st' =>
    cases r with
    | ok a => exact .inl ⟨a, st', rfl⟩
    | error e => exact .inr ⟨_, .fault hr⟩
  | error halt st' => exact .inr ⟨_, .halt hr⟩

/-- What a loop does: it takes turns as long as a test holds. A turn passes something on to the next
one or leaves the loop. -/
structure Cycle (σ : Type) where
  test : σ → Act Bool
  turn : σ → Act (σ ⊕ Completion)
  /-- What it does in the end. -/
  finish : σ → Act Completion
  /-- That it would have to go on. -/
  excess : UsageFault

namespace Cycle

variable (l : Cycle σ)

/-- The loop with at most some turns. -/
def run : Nat → σ → Act Completion
  | 0, x => do if ← l.test x then Call.usage l.excess else l.finish x
  | n + 1, x => do
    if ← l.test x then
      match ← l.turn x with
      | .inl y => run n y
      | .inr c => return c
    else l.finish x

/-- The loop takes some turns and passes on to the next one. -/
inductive Turns : Nat → σ → State → σ → State → Prop
  | none (x : σ) (st : State) : Turns 0 x st x st
  | more {n : Nat} {x y z : σ} {st st₁ st₂ st' : State} (goesOn : (l.test x).run st =
    .ok (.ok true) st₁)
    (turn : (l.turn x).run st₁ = .ok (.ok (.inl y)) st₂) (rest : Turns n y st₂ z st') :
    Turns (n + 1) x st z st'

/-- Without limit the loop ends, in the turn after so many or in its test. -/
inductive Ends : Nat → σ → State → Outcome Completion → Prop
  | ended {x : σ} {st st₁ : State} (ends : (l.test x).run st = .ok (.ok false) st₁) :
    Ends 0 x st ((l.finish x).run st₁)
  | untested {x : σ} {st : State} {r : Outcome Completion} (stops : (l.test x).Stops st r) :
    Ends 0 x st r
  | left {x : σ} {st st₁ st₂ : State} {c : Completion} (goesOn : (l.test x).run st =
    .ok (.ok true) st₁)
    (turn : (l.turn x).run st₁ = .ok (.ok (.inr c)) st₂) : Ends 1 x st (.ok (.ok c) st₂)
  | stopped {x : σ} {st st₁ : State} {r : Outcome Completion}
    (goesOn : (l.test x).run st = .ok (.ok true) st₁) (stops : (l.turn x).Stops st₁ r) :
    Ends 1 x st r
  | again {n : Nat} {x y : σ} {st st₁ st₂ : State} {r : Outcome Completion}
    (goesOn : (l.test x).run st = .ok (.ok true) st₁)
    (turn : (l.turn x).run st₁ = .ok (.ok (.inl y)) st₂) (rest : Ends n y st₂ r) :
    Ends (n + 1) x st r

variable {l} {n k : Nat} {x y : σ} {r : Outcome Completion}

theorem run_of_not_test (h : (l.test x).run st = .ok (.ok false) st₁) :
    (l.run n x).run st = (l.finish x).run st₁ := by
  cases n <;> exact Act.bind_of_ok h

theorem run_of_untested (h : (l.test x).Stops st r) : (l.run n x).run st = r := by
  cases n <;> exact h.bind

theorem run_of_turn (h : (l.test x).run st = .ok (.ok true) st₁)
    (hturn : (l.turn x).run st₁ = .ok (.ok (.inl y)) st₂) :
    (l.run (n + 1) x).run st = (l.run n y).run st₂ :=
  (Act.bind_of_ok h).trans (Act.bind_of_ok hturn)

/-- A limit is nothing to a loop that ends within it. -/
theorem Ends.run_eq (h : l.Ends k x st r) (hk : k ≤ n) : (l.run n x).run st = r := by
  induction h generalizing n with
  | ended h => exact run_of_not_test h
  | untested h => exact run_of_untested h
  | left h hturn =>
    obtain ⟨n, rfl⟩ := Nat.exists_eq_add_of_le' hk
    exact (Act.bind_of_ok h).trans (Act.bind_of_ok hturn)
  | stopped h hstops =>
    obtain ⟨n, rfl⟩ := Nat.exists_eq_add_of_le' hk
    exact (Act.bind_of_ok h).trans hstops.bind
  | again h hturn _ ih =>
    obtain ⟨n, rfl⟩ := Nat.exists_eq_add_of_le' (Nat.le_trans (Nat.le_add_left 1 _) hk)
    rw [run_of_turn h hturn]
    exact ih (Nat.le_of_succ_le_succ hk)

theorem Turns.run_eq (h : l.Turns n x st y st₁) (htest : (l.test y).run st₁ = .ok (.ok true) st₂) :
    (l.run n x).run st = .ok (.error (.usage l.excess)) st₂ := by
  induction h with
  | none x st => exact Act.bind_of_ok htest
  | more goesOn turn _ ih =>
    rw [run_of_turn goesOn turn]
    exact ih htest

theorem ends_or_turns (l : Cycle σ) (n : Nat) (x : σ) (st : State) :
    (∃ k ≤ n, ∃ r, l.Ends k x st r) ∨
      ∃ y st₁ st₂, l.Turns n x st y st₁ ∧ (l.test y).run st₁ = .ok (.ok true) st₂ := by
  -- each turn that passes something on takes one off the limit, from the state it leads to
  induction n generalizing x st with
  | zero =>
    obtain ⟨goesOn, st₁, h⟩ | ⟨r, h⟩ := (l.test x).exists_run st
    · cases goesOn with
      | false => exact .inl ⟨0, Nat.le_refl _, _, .ended h⟩
      | true => exact .inr ⟨x, st, st₁, .none x st, h⟩
    · exact .inl ⟨0, Nat.le_refl _, r, .untested h⟩
  | succ n ih =>
    obtain ⟨goesOn, st₁, h⟩ | ⟨r, h⟩ := (l.test x).exists_run st
    · cases goesOn with
      | false => exact .inl ⟨0, Nat.zero_le _, _, .ended h⟩
      | true =>
        obtain ⟨next, st₂, hturn⟩ | ⟨r, hturn⟩ := (l.turn x).exists_run st₁
        · cases next with
          | inr c => exact .inl ⟨1, Nat.le_add_left .., _, .left h hturn⟩
          | inl y =>
            obtain ⟨k, hk, r, hends⟩ | ⟨z, st₃, st₄, hturns, hz⟩ := ih y st₂
            · exact .inl ⟨k + 1, Nat.succ_le_succ hk, r, .again h hturn hends⟩
            · exact .inr ⟨z, st₃, st₄, .more h hturn hturns, hz⟩
        · exact .inl ⟨1, Nat.le_add_left .., r, .stopped h hturn⟩
    · exact .inl ⟨0, Nat.zero_le _, r, .untested h⟩

/-- What a loop ends with if it has a limit: it ends without one in at most so many turns, or it
takes exactly so many turns and fails because its test still holds. -/
def Limited (l : Cycle σ) (n : Nat) (x : σ) (st : State) (r : Outcome Completion) : Prop :=
  (∃ k ≤ n, l.Ends k x st r) ∨
    ∃ y st₁ st₂, l.Turns n x st y st₁ ∧ (l.test y).run st₁ = .ok (.ok true) st₂ ∧
      r = .ok (.error (.usage l.excess)) st₂

theorem run_iff_limited : (l.run n x).run st = r ↔ l.Limited n x st r := by
  constructor
  · intro h
    obtain ⟨k, hk, r', hends⟩ | ⟨y, st₁, st₂, hturns, hy⟩ := l.ends_or_turns n x st
    · exact .inl ⟨k, hk, (hends.run_eq hk).symm.trans h ▸ hends⟩
    · exact .inr ⟨y, st₁, st₂, hturns, hy, h.symm.trans (hturns.run_eq hy)⟩
  · rintro (⟨k, hk, hends⟩ | ⟨y, st₁, st₂, hturns, hy, rfl⟩)
    · exact hends.run_eq hk
    · exact hturns.run_eq hy

def ofVerdict (x : σ) : LoopVerdict → σ ⊕ Completion
  | .next => .inl x
  | .stop => .inr (.normal "")
  | .leave c => .inr c

variable (call : Call)

def whileTrue (test body : String) : Cycle Unit where
  test _ := call.condition test
  turn _ := return ofVerdict () (← call.runBody body)
  finish _ := Call.done
  excess := .loopExceeded "while" call.setup.limits.loopLimit

/-- Runs a body and a script after it while a condition holds. -/
def forTrue (test next body : String) : Cycle Unit where
  test _ := call.condition test
  turn _ := do
    match ofVerdict () (← call.runBody body) with
    | .inl _ =>
      match ← call.runScript next with
      | .normal _ => return .inl ()
      | c => return .inr c
    | .inr c => return .inr c
  finish _ := Call.done
  excess := .loopExceeded "for" call.setup.limits.loopLimit

/-- Runs a body for each element of a list. -/
def forElements (name body : String) : Cycle (List String) where
  test elements := return !elements.isEmpty
  turn elements := do
    call.setVariable name (elements.headD "")
    return ofVerdict elements.tail (← call.runBody body)
  finish _ := Call.done
  excess := .loopExceeded "foreach" call.setup.limits.loopLimit

/-- Follows jumps. -/
def jumps : Cycle Completion where
  test completion := return completion.target?.isSome
  turn completion := do
    match completion with
    | .jump words =>
      let entry ← Run.addEntry call.scope words
      Run.record (.jump call.scope words)
      return .inl (← call.block words entry)
    | c => return .inr c
  finish completion := return completion.settled
  excess := .tooManyJumps call.setup.limits.jumpLimit

theorem whileLoop_eq (test body : String) (n : Nat) :
    call.whileLoop test body n = (whileTrue call test body).run n () := by
  induction n with
  | zero => rfl
  | succ n ih =>
    rw [Call.whileLoop, run, ih]
    refine bind_congr fun goesOn => ?_
    cases goesOn with
    | false => rfl
    | true =>
      refine Eq.trans (bind_congr fun verdict => ?_) (bind_assoc ..).symm
      cases verdict <;> rfl

theorem forLoop_eq (test next body : String) (n : Nat) :
    call.forLoop test next body n = (forTrue call test next body).run n () := by
  induction n with
  | zero => rfl
  | succ n ih =>
    rw [Call.forLoop, run, ih]
    refine bind_congr fun goesOn => ?_
    cases goesOn with
    | false => rfl
    | true =>
      refine Eq.trans (bind_congr fun verdict => ?_) (bind_assoc ..).symm
      cases verdict with
      | stop | leave => rfl
      | next =>
        refine Eq.trans (bind_congr fun c => ?_) (bind_assoc ..).symm
        cases c <;> rfl

theorem foreachLoop_eq (name body : String) (n : Nat) (elements : List String) :
    call.foreachLoop name body n elements = (forElements call name body).run n elements := by
  induction elements generalizing n with
  | nil => cases n <;> rfl
  | cons element rest ih =>
    cases n with
    | zero => rfl
    | succ n =>
      rw [Call.foreachLoop, run]
      refine Eq.trans ?_ (pure_bind ..).symm
      refine Eq.trans (bind_congr fun _ => ?_) (bind_assoc ..).symm
      refine Eq.trans (bind_congr fun verdict => ?_) (bind_assoc ..).symm
      cases verdict with
      | next => exact ih n
      | stop | leave => rfl

theorem followJumps_eq (n : Nat) (completion : Completion) :
    Operator.followJumps call n completion = (jumps call).run n completion := by
  induction n generalizing completion with
  | zero => cases completion <;> rfl
  | succ n ih =>
    cases completion with
    | jump words =>
      rw [Operator.followJumps, run]
      refine Eq.trans ?_ (pure_bind ..).symm
      refine Eq.trans (bind_congr fun entry => ?_) (bind_assoc ..).symm
      refine Eq.trans (bind_congr fun _ => ?_) (bind_assoc ..).symm
      refine Eq.trans (bind_congr fun c => ?_) (bind_assoc ..).symm
      exact ih c
    | _ => rfl

end Cycle

def Completion.andThen (x : Act Completion) : Completion → Act Completion
  | .normal _ => x
  | c => return c

namespace Builtin

variable (call : Call)

theorem runWhile_eq (test body : String) :
    runWhile call [test, body] =
      (Cycle.whileTrue call test body).run call.setup.limits.loopLimit.rounds () :=
  Cycle.whileLoop_eq call test body _

theorem runFor_eq (start test next body : String) :
    runFor call [start, test, next, body] =
      call.runScript start >>= Completion.andThen
        ((Cycle.forTrue call test next body).run call.setup.limits.loopLimit.rounds ()) := by
  rw [← Cycle.forLoop_eq]
  refine bind_congr fun c => ?_
  cases c <;> rfl

theorem runForeach_eq (name items body : String) :
    runForeach call [name, items, body] =
      Call.listElements items >>=
        (Cycle.forElements call name body).run call.setup.limits.loopLimit.rounds :=
  bind_congr fun elements => Cycle.foreachLoop_eq call name body _ elements

end Builtin

/-- Runs the script of an experiment. -/
def Operator.openExperiment (call : Call) (args : List String) : Act Completion := do
  Call.require args 1 "runexperiment file ?starttime? ?arg ...?"
  let limits := call.setup.limits
  let file ← liftM <|
    (FoundFile.find call.setup.files (args.headD "") ".elan" limits.roots).mapError
      CommandFault.file
  call.modifyState fun s => { s with args := args.drop 2 }
  logInfo call s!"Running experiment {file.name} ({file.path})"
  let text := (call.setup.files.read file.path).toOption.getD ""
  (call.run call.scope text file.path 1 : Run Completion)

theorem Operator.runExperiment_eq (call : Call) (args : List String) :
    runExperiment call args =
      openExperiment call args >>= (Cycle.jumps call).run call.setup.limits.jumpLimit.rounds := by
  refine Eq.trans (bind_congr fun _ => ?_) (bind_assoc ..).symm
  refine Eq.trans (bind_congr fun file => ?_) (bind_assoc ..).symm
  refine Eq.trans (bind_congr fun _ => ?_) (bind_assoc ..).symm
  refine Eq.trans (bind_congr fun _ => ?_) (bind_assoc ..).symm
  exact bind_congr fun c => Cycle.followJumps_eq call _ c

end RadarTimeline.Console
