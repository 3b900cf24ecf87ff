import RadarTimeline.Console.Evaluation
import RadarTimeline.Proofs.Console.Cycle

namespace RadarTimeline.Console

variable {α β σ : Type} {st st' : State}

/-- An act gives a value if all its parts do. -/
theorem Act.bind_ok_iff {x : Act α} {f : α → Act β} {b : β} :
    (x >>= f).run st = .ok (.ok b) st' ↔
      ∃ a st₁, x.run st = .ok (.ok a) st₁ ∧ (f a).run st₁ = .ok (.ok b) st' := by
  obtain ⟨a, st₁, h⟩ | ⟨r, h⟩ := x.exists_run (β := β) st
  · rw [bind_of_ok h, h]
    constructor
    · exact fun hf => ⟨a, st₁, rfl, hf⟩
    · rintro ⟨_, _, ⟨⟩, hf⟩
      exact hf
  · rw [h.bind]
    -- neither a fault nor a halt is a value
    cases h with
    | fault h =>
      constructor
      · rintro ⟨⟩
      · rintro ⟨a, st₁, hx, -⟩
        rw [h] at hx
        cases hx
    | halt h =>
      constructor
      · rintro ⟨⟩
      · rintro ⟨a, st₁, hx, -⟩
        rw [h] at hx
        cases hx

theorem Act.pure_ok_iff {a b : α} :
    (pure a : Act α).run st = .ok (.ok b) st' ↔ b = a ∧ st' = st := by
  constructor
  · rintro ⟨⟩
    exact ⟨rfl, rfl⟩
  · rintro ⟨rfl, rfl⟩
    rfl

namespace Completion

def isNormal : Completion → Bool
  | .normal _ => true
  | _ => false

/-- Break and continue, which are meant for loops. -/
def ofLoop : Completion → Bool
  | .broken | .continued => true
  | _ => false

/-- How a loop ends after its body has completed, if it does not go on. -/
def loopEnd? : Completion → Option Completion
  | .normal _ | .continued => none
  | .broken => some (.normal "")
  | c => some c

theorem ofLoop_of_loopEnd? {b c : Completion} (h : b.loopEnd? = some c) : c.ofLoop = false := by
  cases b <;> cases h <;> rfl

theorem not_isNormal_of_ofLoop {c : Completion} (h : c.ofLoop = true) : c.isNormal = false := by
  cases c <;> first | rfl | cases h

end Completion

namespace Cycle

variable {l : Cycle σ} {n : Nat} {x y : σ} {c : Completion}

/-- After less turns than the limit the loop comes to the next one. -/
def ComesTo (l : Cycle σ) (n : Nat) (x : σ) (st : State) (y : σ) (st' : State) : Prop :=
  ∃ k < n, ∃ st₁, l.Turns k x st y st₁ ∧ (l.test y).run st₁ = .ok (.ok true) st'

/-- The test of a loop fails within its limit. -/
def RunsOut (l : Cycle σ) (n : Nat) (x : σ) (st : State) (y : σ) (st' : State) : Prop :=
  ∃ k ≤ n, ∃ st₁, l.Turns k x st y st₁ ∧ (l.test y).run st₁ = .ok (.ok false) st'

/-- A loop completes when its test fails, or in a turn that leaves it. -/
theorem run_ok_iff : (l.run n x).run st = .ok (.ok c) st' ↔
    (∃ y st₁, l.RunsOut n x st y st₁ ∧ (l.finish y).run st₁ = .ok (.ok c) st') ∨
      ∃ y st₁, l.ComesTo n x st y st₁ ∧ (l.turn y).run st₁ = .ok (.ok (.inr c)) st' := by
  induction n generalizing x st with
  | zero =>
    rw [run, Act.bind_ok_iff]
    constructor
    · rintro ⟨goesOn, st₁, htest, h⟩
      cases goesOn with
      | true => cases h
      | false => exact .inl ⟨x, st₁, ⟨0, Nat.le_refl 0, st, .none x st, htest⟩, h⟩
    · rintro (⟨y, st₁, ⟨k, hk, st₀, hturns, htest⟩, h⟩ | ⟨_, _, ⟨_, hk, -⟩, -⟩)
      · obtain rfl := Nat.le_zero.1 hk
        cases hturns
        exact ⟨false, st₁, htest, h⟩
      · exact (Nat.not_lt_zero _ hk).elim
  | succ n ih =>
    rw [run, Act.bind_ok_iff]
    constructor
    · rintro ⟨goesOn, st₁, htest, h⟩
      cases goesOn with
      | false => exact .inl ⟨x, st₁, ⟨0, Nat.zero_le _, st, .none x st, htest⟩, h⟩
      | true =>
        obtain ⟨next, st₂, hturn, h⟩ := Act.bind_ok_iff.1 h
        cases next with
        | inr d =>
          obtain ⟨rfl, rfl⟩ := Act.pure_ok_iff.1 h
          exact .inr ⟨x, st₁, ⟨0, Nat.succ_pos n, st, .none x st, htest⟩, hturn⟩
        | inl y =>
          -- the turn is one more in front of those of the rest
          obtain ⟨z, st₃, ⟨k, hk, st₀, hturns, hz⟩, h⟩ | ⟨z, st₃, ⟨k, hk, st₀, hturns, hz⟩, h⟩ :=
            ih.1 h
          · exact .inl ⟨z, st₃, ⟨k + 1, Nat.succ_le_succ hk, st₀, .more htest hturn hturns, hz⟩, h⟩
          · exact .inr ⟨z, st₃, ⟨k + 1, Nat.succ_lt_succ hk, st₀, .more htest hturn hturns, hz⟩, h⟩
    · rintro (⟨z, st₃, ⟨k, hk, st₀, hturns, hz⟩, h⟩ | ⟨z, st₃, ⟨k, hk, st₀, hturns, hz⟩, h⟩)
      · cases hturns with
        | none => exact ⟨false, st₃, hz, h⟩
        | more htest hturn rest =>
          refine ⟨true, _, htest, Act.bind_ok_iff.2 ⟨_, _, hturn, ih.2 (.inl ?_)⟩⟩
          exact ⟨z, st₃, ⟨_, Nat.le_of_succ_le_succ hk, st₀, rest, hz⟩, h⟩
      · cases hturns with
        | none => exact ⟨true, st₃, hz, Act.bind_ok_iff.2 ⟨_, _, h, rfl⟩⟩
        | more htest hturn rest =>
          refine ⟨true, _, htest, Act.bind_ok_iff.2 ⟨_, _, hturn, ih.2 (.inr ?_)⟩⟩
          exact ⟨z, st₃, ⟨_, Nat.lt_of_succ_lt_succ hk, st₀, rest, hz⟩, h⟩

theorem ofVerdict_eq_inr (x : σ) (b : Completion) :
    ofVerdict x (.ofCompletion b) = .inr c ↔ b.loopEnd? = some c := by
  cases b <;> simp [ofVerdict, LoopVerdict.ofCompletion, Completion.loopEnd?]

theorem ofVerdict_eq_inl (x y : σ) (b : Completion) :
    ofVerdict x (.ofCompletion b) = .inl y ↔ b.loopEnd? = none ∧ y = x := by
  cases b <;> simp [ofVerdict, LoopVerdict.ofCompletion, Completion.loopEnd?, eq_comm]

variable (call : Call)

theorem runBody_bind_ok_iff {body : String} {k : LoopVerdict → σ ⊕ Completion}
    {r : σ ⊕ Completion} :
    (do return k (← call.runBody body) : Act (σ ⊕ Completion)).run st = .ok (.ok r) st' ↔
      ∃ b, (call.runScript body).run st = .ok (.ok b) st' ∧ k (.ofCompletion b) = r := by
  rw [Act.bind_ok_iff]
  constructor
  · rintro ⟨v, st₁, hv, h⟩
    obtain ⟨b, st₂, hb, hv⟩ := Act.bind_ok_iff.1 hv
    obtain ⟨rfl, rfl⟩ := Act.pure_ok_iff.1 hv
    obtain ⟨rfl, rfl⟩ := Act.pure_ok_iff.1 h
    exact ⟨b, hb, rfl⟩
  · rintro ⟨b, hb, rfl⟩
    exact ⟨_, st', Act.bind_ok_iff.2 ⟨b, st', hb, rfl⟩, rfl⟩

theorem whileTrue_leaves_iff (test body : String) (u : Unit) :
    ((whileTrue call test body).turn u).run st = .ok (.ok (.inr c)) st' ↔
      ∃ b, (call.runScript body).run st = .ok (.ok b) st' ∧ b.loopEnd? = some c := by
  simp only [← ofVerdict_eq_inr ()]
  exact runBody_bind_ok_iff call

theorem forElements_leaves_iff (name body : String) (elements : List String) :
    ((forElements call name body).turn elements).run st = .ok (.ok (.inr c)) st' ↔
      ∃ b, (do call.setVariable name (elements.headD ""); call.runScript body : Act Completion).run
        st = .ok (.ok b) st' ∧ b.loopEnd? = some c := by
  simp only [← ofVerdict_eq_inr elements.tail]
  constructor
  · intro h
    obtain ⟨u, st₁, hset, h⟩ := Act.bind_ok_iff.1 h
    obtain ⟨b, hb, hc⟩ := (runBody_bind_ok_iff call).1 h
    exact ⟨b, Act.bind_ok_iff.2 ⟨u, st₁, hset, hb⟩, hc⟩
  · rintro ⟨b, h, hc⟩
    obtain ⟨u, st₁, hset, hb⟩ := Act.bind_ok_iff.1 h
    exact Act.bind_ok_iff.2 ⟨u, st₁, hset, (runBody_bind_ok_iff call).2 ⟨b, hb, hc⟩⟩

/-- A `for` is left by its body, or by the script after it if that does not complete normally. -/
theorem forTrue_leaves_iff (test next body : String) (u : Unit) :
    ((forTrue call test next body).turn u).run st = .ok (.ok (.inr c)) st' ↔
      (∃ b, (call.runScript body).run st = .ok (.ok b) st' ∧ b.loopEnd? = some c) ∨
        ∃ b st₁, (call.runScript body).run st = .ok (.ok b) st₁ ∧ b.loopEnd? = none ∧
          (call.runScript next).run st₁ = .ok (.ok c) st' ∧ c.isNormal = false := by
  have hleave : ∀ (b d : Completion), b.loopEnd? = some d →
    ofVerdict () (.ofCompletion b) = .inr d :=
    fun b d h => (ofVerdict_eq_inr () b).2 h
  have hnext : ∀ b : Completion, b.loopEnd? = none → ofVerdict () (.ofCompletion b) = .inl () :=
    fun b h => (ofVerdict_eq_inl () () b).2 ⟨h, rfl⟩
  constructor
  · intro h
    obtain ⟨v, st₁, hv, h⟩ := Act.bind_ok_iff.1 h
    obtain ⟨b, st₂, hb, hv⟩ := Act.bind_ok_iff.1 hv
    obtain ⟨rfl, rfl⟩ := Act.pure_ok_iff.1 hv
    cases hend : b.loopEnd? with
    | some d =>
      rw [hleave b d hend] at h
      cases h
      exact .inl ⟨b, hb, hend⟩
    | none =>
      rw [hnext b hend] at h
      obtain ⟨d, st₂, hd, h⟩ := Act.bind_ok_iff.1 h
      cases d <;> cases h <;> exact .inr ⟨b, st₁, hb, hend, hd, rfl⟩
  · rintro (⟨b, hb, hend⟩ | ⟨b, st₁, hb, hend, hd, hc⟩)
    · refine Act.bind_ok_iff.2 ⟨_, st', Act.bind_ok_iff.2 ⟨b, st', hb, rfl⟩, ?_⟩
      rw [hleave b c hend]
      rfl
    · refine Act.bind_ok_iff.2 ⟨_, st₁, Act.bind_ok_iff.2 ⟨b, st₁, hb, rfl⟩, ?_⟩
      rw [hnext b hend]
      refine Act.bind_ok_iff.2 ⟨c, st', hd, ?_⟩
      cases c <;> first | rfl | cases hc

/-- How a loop completes that only its body can leave. -/
inductive BodyEnds (l : Cycle σ) (n : Nat) (body : σ → Act Completion) (x : σ) (st : State) :
    Completion → State → Prop
  | ranOut {y : σ} {st' : State} (h : l.RunsOut n x st y st') :
    BodyEnds l n body x st (.normal "") st'
  | left {y : σ} {st₁ st' : State} {b c : Completion} (comes : l.ComesTo n x st y st₁)
    (completes : (body y).run st₁ = .ok (.ok b) st') (ends : b.loopEnd? = some c) :
    BodyEnds l n body x st c st'

theorem BodyEnds.not_ofLoop {body : σ → Act Completion} (h : l.BodyEnds n body x st c st') :
    c.ofLoop = false := by
  cases h with
  | ranOut => rfl
  | left _ _ ends => exact Completion.ofLoop_of_loopEnd? ends

/-- A loop with nothing to do in the end completes as its turns do. -/
theorem bodyEnds_iff {body : σ → Act Completion} (hfinish : ∀ y, l.finish y = Call.done)
    (hturn : ∀ y st₁, (l.turn y).run st₁ = .ok (.ok (.inr c)) st' ↔
      ∃ b, (body y).run st₁ = .ok (.ok b) st' ∧ b.loopEnd? = some c) :
    (l.run n x).run st = .ok (.ok c) st' ↔ l.BodyEnds n body x st c st' := by
  rw [run_ok_iff]
  constructor
  · rintro (⟨y, st₁, hout, h⟩ | ⟨y, st₁, hcomes, h⟩)
    · rw [hfinish] at h
      obtain ⟨rfl, rfl⟩ := Act.pure_ok_iff.1 h
      exact .ranOut hout
    · obtain ⟨b, hb, hend⟩ := (hturn y st₁).1 h
      exact .left hcomes hb hend
  · intro h
    cases h with
    | ranOut hout =>
      refine .inl ⟨_, st', hout, ?_⟩
      rw [hfinish]
      rfl
    | left hcomes hb hend => exact .inr ⟨_, _, hcomes, (hturn _ _).2 ⟨_, hb, hend⟩⟩

end Cycle

/-- How a `for` completes: as its first script does if that is not normal, as its test and body have
it, or as the script after the body does if that is not normal. -/
inductive ForEnds (call : Call) (start test next body : String) (st : State) : Completion →
    State → Prop
  | unstarted {c : Completion} {st' : State} (h : (call.runScript start).run st = .ok (.ok c) st')
    (hc : c.isNormal = false) : ForEnds call start test next body st c st'
  | looped {value : String} {st₀ st' : State} {c : Completion}
    (started : (call.runScript start).run st = .ok (.ok (.normal value)) st₀)
    (h : (Cycle.forTrue call test next body).BodyEnds call.setup.limits.loopLimit.rounds
      (fun _ => call.runScript body) () st₀ c st') : ForEnds call start test next body st c st'
  | stepped {value : String} {st₀ st₁ st₂ st' : State} {b c : Completion}
    (started : (call.runScript start).run st = .ok (.ok (.normal value)) st₀)
    (comes : (Cycle.forTrue call test next body).ComesTo call.setup.limits.loopLimit.rounds
      () st₀ () st₁)
    (goesOn : (call.runScript body).run st₁ = .ok (.ok b) st₂ ∧ b.loopEnd? = none)
    (h : (call.runScript next).run st₂ = .ok (.ok c) st') (hc : c.isNormal = false) :
    ForEnds call start test next body st c st'

/-- A `for` breaks or continues itself exactly if its first script does, or the one that follows a
body that did not end the loop. -/
theorem forEnds_ofLoop_iff {call : Call} {start test next body : String} {c : Completion}
    (hc : c.ofLoop = true) : ForEnds call start test next body st c st' ↔
      (call.runScript start).run st = .ok (.ok c) st' ∨
        ∃ value st₀ st₁ b st₂, (call.runScript start).run st = .ok (.ok (.normal value)) st₀ ∧
          (Cycle.forTrue call test next body).ComesTo call.setup.limits.loopLimit.rounds
            () st₀ () st₁ ∧
          (call.runScript body).run st₁ = .ok (.ok b) st₂ ∧ b.loopEnd? = none ∧
          (call.runScript next).run st₂ = .ok (.ok c) st' := by
  constructor
  · intro h
    cases h with
    | unstarted hstart => exact .inl hstart
    | looped _ hends =>
      rw [hends.not_ofLoop] at hc
      cases hc
    | stepped hstart hcomes hgoes hnext =>
      exact .inr ⟨_, _, _, _, _, hstart, hcomes, hgoes.1, hgoes.2, hnext⟩
  · have hnormal := Completion.not_isNormal_of_ofLoop hc
    rintro (hstart | ⟨value, st₀, st₁, b, st₂, hstart, hcomes, hb, hend, hnext⟩)
    · exact .unstarted hstart hnormal
    · exact .stepped hstart hcomes ⟨hb, hend⟩ hnext hnormal

namespace Builtin

variable (call : Call) {c : Completion}

theorem runWhile_ok_iff (test body : String) :
    (runWhile call [test, body]).run st = .ok (.ok c) st' ↔
      (Cycle.whileTrue call test body).BodyEnds call.setup.limits.loopLimit.rounds
        (fun _ => call.runScript body) () st c st' := by
  rw [runWhile_eq]
  exact Cycle.bodyEnds_iff (fun _ => rfl) fun y _ => Cycle.whileTrue_leaves_iff call test body y

theorem runForeach_ok_iff (name items body : String) :
    (runForeach call [name, items, body]).run st = .ok (.ok c) st' ↔
      ∃ elements, readList items = .ok elements ∧
        (Cycle.forElements call name body).BodyEnds call.setup.limits.loopLimit.rounds
          (fun rest => do call.setVariable name (rest.headD ""); call.runScript body)
          elements st c st' := by
  have hends : ∀ elements st₀, ((Cycle.forElements call name body).run
      call.setup.limits.loopLimit.rounds elements).run st₀ = .ok (.ok c) st' ↔ _ :=
      fun elements st₀ =>
    Cycle.bodyEnds_iff (fun _ => rfl) fun y _ => Cycle.forElements_leaves_iff call name body y
  rw [runForeach_eq, Act.bind_ok_iff]
  simp only [hends]
  constructor
  · rintro ⟨elements, st₀, h, hb⟩
    rw [Call.listElements] at h
    cases hread : readList items with
    | ok es =>
      rw [hread] at h
      cases h
      exact ⟨elements, rfl, hb⟩
    | error e =>
      rw [hread] at h
      cases h
  · rintro ⟨elements, hread, hb⟩
    refine ⟨elements, st, ?_, hb⟩
    rw [Call.listElements, hread]
    rfl

theorem runFor_ok_iff (start test next body : String) :
    (runFor call [start, test, next, body]).run st = .ok (.ok c) st' ↔
      ForEnds call start test next body st c st' := by
  rw [runFor_eq, Act.bind_ok_iff]
  have hloop : ∀ st₀, ((Cycle.forTrue call test next body).run
      call.setup.limits.loopLimit.rounds ()).run st₀ = .ok (.ok c) st' ↔ _ :=
      fun st₀ => Cycle.run_ok_iff
  constructor
  · rintro ⟨b₀, st₀, hstart, h⟩
    cases b₀ with
    | normal value =>
      obtain ⟨y, st₁, hout, h⟩ | ⟨y, st₁, hcomes, h⟩ := (hloop st₀).1 h
      · obtain ⟨rfl, rfl⟩ := Act.pure_ok_iff.1 h
        exact .looped hstart (.ranOut hout)
      · obtain ⟨b, hb, hend⟩ | ⟨b, st₂, hb, hend, hc, hnormal⟩ :=
          (Cycle.forTrue_leaves_iff call test next body y).1 h
        · exact .looped hstart (.left hcomes hb hend)
        · exact .stepped hstart hcomes ⟨hb, hend⟩ hc hnormal
    | _ =>
      cases h
      exact .unstarted hstart rfl
  · intro h
    cases h with
    | unstarted hstart hc =>
      refine ⟨c, st', hstart, ?_⟩
      cases c <;> first | rfl | cases hc
    | looped hstart hends =>
      refine ⟨_, _, hstart, (hloop _).2 ?_⟩
      cases hends with
      | ranOut hout => exact .inl ⟨_, st', hout, rfl⟩
      | left hcomes hb hend =>
        exact .inr ⟨_, _, hcomes, (Cycle.forTrue_leaves_iff call test next body _).2
          (.inl ⟨_, hb, hend⟩)⟩
    | stepped hstart hcomes hgoes hnext hc =>
      exact ⟨_, _, hstart,
        (hloop _).2 (.inr ⟨_, _, hcomes, (Cycle.forTrue_leaves_iff call test next body _).2
        (.inr ⟨_, _, hgoes.1, hgoes.2, hnext, hc⟩)⟩)⟩

variable (args : List String)

theorem while_ok_iff : (run call args .while_).run st = .ok (.ok c) st' ↔
    ∃ test body, args = [test, body] ∧
      (Cycle.whileTrue call test body).BodyEnds call.setup.limits.loopLimit.rounds
        (fun _ => call.runScript body) () st c st' := by
  simp only [← runWhile_ok_iff]
  constructor
  · intro h
    rcases args with _ | ⟨test, _ | ⟨body, _ | ⟨_, _⟩⟩⟩
    case cons.cons.nil => exact ⟨test, body, rfl, h⟩
    all_goals cases h
  · rintro ⟨test, body, rfl, h⟩
    exact h

theorem foreach_ok_iff : (run call args .foreach).run st = .ok (.ok c) st' ↔
    ∃ name items body, args = [name, items, body] ∧ ∃ elements, readList items = .ok elements ∧
      (Cycle.forElements call name body).BodyEnds call.setup.limits.loopLimit.rounds
        (fun rest => do call.setVariable name (rest.headD ""); call.runScript body)
        elements st c st' := by
  simp only [← runForeach_ok_iff]
  constructor
  · intro h
    rcases args with _ | ⟨name, _ | ⟨items, _ | ⟨body, _ | ⟨_, _⟩⟩⟩⟩
    case cons.cons.cons.nil => exact ⟨name, items, body, rfl, h⟩
    all_goals cases h
  · rintro ⟨name, items, body, rfl, h⟩
    exact h

theorem for_ok_iff : (run call args .for_).run st = .ok (.ok c) st' ↔
    ∃ start test next body, args = [start, test, next, body] ∧
      ForEnds call start test next body st c st' := by
  simp only [← runFor_ok_iff]
  constructor
  · intro h
    rcases args with _ | ⟨start, _ | ⟨test, _ | ⟨next, _ | ⟨body, _ | ⟨_, _⟩⟩⟩⟩⟩
    case cons.cons.cons.cons.nil => exact ⟨start, test, next, body, rfl, h⟩
    all_goals cases h
  · rintro ⟨start, test, next, body, rfl, h⟩
    exact h

end Builtin

/-- How the commands that loop complete. One whose test fails or whose body breaks completes with
nothing, and a return or a jump of its body passes it, while its body never makes it break or
continue. Only a `for` does so, exactly if its first script does, or the one that follows a body
that did not end the loop. -/
theorem loops_complete_iff (call : Call) (args : List String) (st : State) (c : Completion)
    (st' : State) :
    let n := call.setup.limits.loopLimit.rounds
    ((Builtin.run call args .while_).run st = .ok (.ok c) st' ↔
      ∃ test body, args = [test, body] ∧
        (Cycle.whileTrue call test body).BodyEnds n (fun _ => call.runScript body) () st c st') ∧
    ((Builtin.run call args .foreach).run st = .ok (.ok c) st' ↔
      ∃ name items body, args = [name, items, body] ∧ ∃ elements, readList items = .ok elements ∧
        (Cycle.forElements call name body).BodyEnds n
          (fun rest => do call.setVariable name (rest.headD ""); call.runScript body)
            elements st c st') ∧
    ((Builtin.run call args .for_).run st = .ok (.ok c) st' ↔
      ∃ start test next body, args = [start, test, next, body] ∧
        ForEnds call start test next body st c st') ∧
    (c.ofLoop = true →
      (Builtin.run call args .while_).run st ≠ .ok (.ok c) st' ∧
      (Builtin.run call args .foreach).run st ≠ .ok (.ok c) st' ∧
      ((Builtin.run call args .for_).run st = .ok (.ok c) st' ↔
        ∃ start test next body, args = [start, test, next, body] ∧
          ((call.runScript start).run st = .ok (.ok c) st' ∨
            ∃ value st₀ st₁ b st₂, (call.runScript start).run st = .ok (.ok (.normal value)) st₀ ∧
              (Cycle.forTrue call test next body).ComesTo n () st₀ () st₁ ∧
              (call.runScript body).run st₁ = .ok (.ok b) st₂ ∧ b.loopEnd? = none ∧
              (call.runScript next).run st₂ = .ok (.ok c) st'))) := by
  have hwhile : (Builtin.run call args .while_).run st = .ok (.ok c) st' ↔ _ :=
    Builtin.while_ok_iff call args
  have hforeach : (Builtin.run call args .foreach).run st = .ok (.ok c) st' ↔ _ :=
    Builtin.foreach_ok_iff call args
  have hfor : (Builtin.run call args .for_).run st = .ok (.ok c) st' ↔ _ :=
    Builtin.for_ok_iff call args
  refine ⟨hwhile, hforeach, hfor, fun hc => ⟨fun h => ?_, fun h => ?_, ?_⟩⟩
  · obtain ⟨test, body, -, hends⟩ := hwhile.1 h
    rw [hends.not_ofLoop] at hc
    cases hc
  · obtain ⟨name, items, body, -, elements, -, hends⟩ := hforeach.1 h
    rw [hends.not_ofLoop] at hc
    cases hc
  · rw [hfor]
    simp only [forEnds_ofLoop_iff hc]

/-- A `for` whose script after the body breaks. -/
def breakingNext : String :=
  "for \x7bset i 0\x7d \x7b$i < 3\x7d \x7bbreak\x7d \x7bset x 1\x7d"

theorem breakingNext_breaks :
    Run.value? (runNested ⟨.empty, {}, "eros", "tcl"⟩ 2 0 "set i 0" consoleName 1
        (State.initial .uhf "UHF")) = some (.normal "0") ∧
      Run.value? (runNested ⟨.empty, {}, "eros", "tcl"⟩ 2 0 breakingNext consoleName 1
        (State.initial .uhf "UHF")) = some .broken := by
  decide +kernel

end RadarTimeline.Console
