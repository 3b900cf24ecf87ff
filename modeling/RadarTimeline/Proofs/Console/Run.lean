import RadarTimeline.Proofs.Console.Scopes

namespace RadarTimeline.Console

variable {ε α β : Type} {st st₁ : State} {a : α} {e : ε} {halt : Halt}

namespace Run

variable {x : Run α} {f : α → Run β}

theorem bind_of_ok (h : x st = .ok a st₁) : (x >>= f) st = f a st₁ := by
  change EStateM.bind x f st = _
  rw [EStateM.bind, h]

theorem bind_of_error (h : x st = .error halt st₁) : (x >>= f) st = .error halt st₁ := by
  change EStateM.bind x f st = _
  rw [EStateM.bind, h]

theorem bind_of_eq {y : Run α} (h : x st = y st₁) : (x >>= f) st = (y >>= f) st₁ := by
  change EStateM.bind x f st = EStateM.bind y f st₁
  rw [EStateM.bind, EStateM.bind, h]

theorem exists_of_bind_ok {b : β} {st' : State} (h : (x >>= f) st = .ok b st') :
    ∃ a st₁, x st = .ok a st₁ ∧ f a st₁ = .ok b st' := by
  cases hr : x st with
  | ok a st₁ => exact ⟨a, st₁, rfl, (bind_of_ok hr).symm.trans h⟩
  | error halt st₁ =>
    rw [bind_of_error hr] at h
    cases h

theorem addEntry_run {s : Nat} (words : List String) (h : s < st.scopes.size) :
    addEntry s words st = .ok (st.scope s).log.size (st.withEntry s words) := by
  change EStateM.Result.ok (((st.withEntry s words).scope s).log.size - 1) _ = _
  rw [State.withEntry, st.scope_modifyScope _ h, Array.size_push, Nat.add_sub_cancel]

theorem openChild_run (s : Nat) (name : String) (bindings : List (String × String)) :
    openChild s name bindings st =
      .ok st.scopes.size
        { st with scopes := st.scopes.push ((st.scope s).child s name bindings) } := by
  change EStateM.Result.ok ((st.scopes.push _).size - 1) _ = _
  rw [Array.size_push, Nat.add_sub_cancel]

theorem mapFault_of_error {g : ScriptError → ScriptError} (h : x st = .error halt st₁) :
    ∃ halt', mapFault g x st = .error halt' st₁ := by
  rw [mapFault, h]
  cases halt with
  | fault e => exact ⟨_, rfl⟩
  | tooDeep => exact ⟨_, rfl⟩

variable {st' : State} {b : β}

theorem bind_ok_iff :
    (x >>= f) st = .ok b st' ↔ ∃ a st₁, x st = .ok a st₁ ∧ f a st₁ = .ok b st' := by
  refine ⟨exists_of_bind_ok, ?_⟩
  rintro ⟨a, st₁, hx, hf⟩
  rw [bind_of_ok hx, hf]

theorem bind_error_iff : (x >>= f) st = .error halt st' ↔
    x st = .error halt st' ∨ ∃ a st₁, x st = .ok a st₁ ∧ f a st₁ = .error halt st' := by
  cases hx : x st with
  | ok a st₁ =>
    rw [bind_of_ok hx]
    constructor
    · exact fun h => .inr ⟨a, st₁, rfl, h⟩
    · rintro (h | ⟨a, st₁, h, hf⟩) <;> cases h
      exact hf
  | error halt st₁ =>
    rw [bind_of_error hx]
    constructor
    · intro h
      cases h
      exact .inl rfl
    · rintro (h | ⟨a, st₁, h, -⟩) <;> cases h
      rfl

theorem bind_pure_error_iff {k : α → β} :
    (x >>= fun a => pure (k a)) st = .error halt st' ↔ x st = .error halt st' := by
  rw [bind_error_iff]
  refine ⟨fun h => h.resolve_right ?_, .inl⟩
  rintro ⟨a, st₁, -, h⟩
  cases h

theorem mapFault_ok_iff {k : ScriptError → ScriptError} :
    mapFault k x st = .ok a st' ↔ x st = .ok a st' := by
  rw [mapFault]
  cases x st with
  | ok => rfl
  | error halt => cases halt <;> exact ⟨nofun, nofun⟩

theorem mapFault_fault_iff {k : ScriptError → ScriptError} {e : ScriptError} :
    mapFault k x st = .error (.fault e) st' ↔ ∃ e₀, x st = .error (.fault e₀) st' ∧ k e₀ = e := by
  rw [mapFault]
  cases x st with
  | ok => exact ⟨nofun, nofun⟩
  | error halt st₁ =>
    cases halt with
    | tooDeep => exact ⟨nofun, nofun⟩
    | fault e₀ =>
      constructor
      · intro h
        cases h
        exact ⟨e₀, rfl, rfl⟩
      · rintro ⟨e₀, h, rfl⟩
        cases h
        rfl

/-- A walk through a list halts where the run of one of its elements does, after those before it. -/
theorem mapM_error_iff {γ : Type} {g : γ → Run α} {cs : List γ} : cs.mapM g st = .error halt st' ↔
    ∃ before c after as st₁, cs = before ++ c :: after ∧ before.mapM g st = .ok as st₁ ∧
      g c st₁ = .error halt st' := by
  induction cs generalizing st with
  | nil =>
    constructor
    · intro h
      cases h
    · rintro ⟨before, c, after, as, st₁, hcs, -⟩
      simp at hcs
  | cons c rest ih =>
    rw [List.mapM_cons, bind_error_iff]
    constructor
    · rintro (h | ⟨a, st₁, ha, h⟩)
      · exact ⟨[], c, rest, [], st, rfl, rfl, h⟩
      · rcases bind_error_iff.1 h with h | ⟨as, st₂, -, h⟩
        · obtain ⟨before, d, after, as, st₂, rfl, has, hd⟩ := ih.1 h
          refine ⟨c :: before, d, after, a :: as, st₂, rfl, ?_, hd⟩
          rw [List.mapM_cons, bind_of_ok ha, bind_of_ok has]
          rfl
        · cases h
    · rintro ⟨before, d, after, as, st₁, hcs, has, hd⟩
      cases before with
      | nil =>
        cases hcs
        cases has
        exact .inl hd
      | cons b before =>
        cases hcs
        rw [List.mapM_cons, bind_ok_iff] at has
        obtain ⟨a, st₂, ha, has⟩ := has
        obtain ⟨as', st₃, has, heq⟩ := bind_ok_iff.1 has
        cases heq
        exact .inr ⟨a, st₂, ha,
          bind_error_iff.2 (.inl (ih.2 ⟨before, d, after, as', _, rfl, has, hd⟩))⟩

/-- A run leads to a state, whether it completes or halts there. -/
def LeadsTo (x : Run α) (st st' : State) : Prop :=
  (∃ a, x st = .ok a st') ∨ ∃ halt, x st = .error halt st'

def completes : EStateM.Result Halt State α → Bool
  | .ok _ _ => true
  | .error _ _ => false

theorem exists_ok (h : completes (x st) = true) : ∃ a st', x st = .ok a st' := by
  cases hr : x st with
  | ok a st' => exact ⟨a, st', rfl⟩
  | error halt st' =>
    rw [hr] at h
    cases h

theorem exists_error (h : completes (x st) = false) : ∃ halt st', x st = .error halt st' := by
  cases hr : x st with
  | ok a st' =>
    rw [hr] at h
    cases h
  | error halt st' => exact ⟨halt, st', rfl⟩

def value? : EStateM.Result Halt State α → Option α
  | .ok a _ => some a
  | .error _ _ => none

theorem exists_of_value? (h : value? (x st) = some a) : ∃ st', x st = .ok a st' := by
  cases hr : x st with
  | ok b st' =>
    rw [hr] at h
    cases h
    exact ⟨st', rfl⟩
  | error halt st' =>
    rw [hr] at h
    cases h

end Run

namespace Act

variable {x : ExceptT ε Run α} {f : α → ExceptT ε Run β}

theorem bind_of_ok (h : x.run st = .ok (.ok a) st₁) : (x >>= f).run st = (f a).run st₁ := by
  change (x.run >>= ExceptT.bindCont f) st = _
  rw [Run.bind_of_ok h]
  rfl

theorem bind_of_fault (h : x.run st = .ok (.error e) st₁) :
    (x >>= f).run st = .ok (.error e) st₁ := by
  change (x.run >>= ExceptT.bindCont f) st = _
  rw [Run.bind_of_ok h]
  rfl

theorem bind_of_halt (h : x.run st = .error halt st₁) : (x >>= f).run st = .error halt st₁ := by
  change (x.run >>= ExceptT.bindCont f) st = _
  rw [Run.bind_of_error h]

theorem bind_of_eq {y : ExceptT ε Run α} (h : x.run st = y.run st₁) :
    (x >>= f).run st = (y >>= f).run st₁ :=
  Run.bind_of_eq h

theorem lift_of_ok {x : Run α} (h : x st = .ok a st₁) :
    (liftM x : ExceptT ε Run α).run st = .ok (.ok a) st₁ := by
  change EStateM.map Except.ok x st = _
  rw [EStateM.map, h]

theorem lift_of_error {x : Run α} (h : x st = .error halt st₁) :
    (liftM x : ExceptT ε Run α).run st = .error halt st₁ := by
  change EStateM.map Except.ok x st = _
  rw [EStateM.map, h]

end Act

def consoleCall (name : String) : Call :=
  let setup : Setup := ⟨.empty, {}, "eros", "tcl"⟩
  ⟨setup, runNested setup 0, 0, ⟨consoleName, ⟨.bare, name, 1, 1, 1⟩, []⟩, 0⟩

end RadarTimeline.Console
