import RadarTimeline.Proofs.Console.Cycle
import RadarTimeline.Proofs.Console.Loaders

namespace RadarTimeline.Console

/-- An experiment that runs in a scope, and how many jumps it may still follow. -/
structure Frame where
  scope : Nat
  left : Nat
deriving Repr, DecidableEq

/-- The experiments that run, innermost first, and the jump that has been asked for. -/
structure Course where
  experiments : List Frame
  pending : Option (List String)
deriving Repr, DecidableEq

namespace Course

/-- A command begins. `runexperiment` may follow so many jumps, and `gotoblock` asks for one. -/
def begin (limit : Nat) (c : Course) (s : Nat) (words : List String) : Option Handler → Course
  | some (.operator .runexperiment) => { c with experiments := ⟨s, limit⟩ :: c.experiments }
  | some (.operator .gotoblock) =>
    if words.tail = [] then c else { c with pending := some words.tail }
  | _ => c

/-- Events lead from one course to another one. While a jump is pending no command runs; only the
innermost experiment follows the jump, in its own scope and to the block that was asked for, and it
may be over only when no jump is pending. -/
inductive Leads (limit : Nat) : Course → List Event → Course → Prop
  | nil (c : Course) : Leads limit c [] c
  | shown {c c' : Course} {e : Event} {es : List Event} (h : e.Shown) (rest : Leads limit c es c') :
    Leads limit c (e :: es) c'
  | command {c c' : Course} {es : List Event} (s : Nat) (words : List String)
    (handler : Option Handler)
    (idle : c.pending = none) (rest : Leads limit (c.begin limit s words handler) es c') :
    Leads limit c (.command s words handler :: es) c'
  | jump {c' : Course} {es : List Event} {experiments : List Frame} {s left : Nat}
    {words : List String} (rest : Leads limit ⟨⟨s, left⟩ :: experiments, none⟩ es c') :
    Leads limit ⟨⟨s, left + 1⟩ :: experiments, some words⟩ (.jump s words :: es) c'
  | finish {c' : Course} {es : List Event} {experiment : Frame} {experiments : List Frame}
    (rest : Leads limit ⟨experiments, none⟩ es c') :
    Leads limit ⟨experiment :: experiments, none⟩ es c'

variable {limit : Nat} {c c₁ c' : Course} {first second : List Event}

theorem Leads.trans (h : Leads limit c first c₁) (h' : Leads limit c₁ second c') :
    Leads limit c (first ++ second) c' := by
  induction h with
  | nil => exact h'
  | shown he _ ih => exact .shown he (ih h')
  | command s words handler idle _ ih => exact .command s words handler idle (ih h')
  | jump _ ih => exact .jump (ih h')
  | finish _ ih => exact .finish (ih h')

theorem Leads.of_shown (h : ∀ e ∈ first, e.Shown) : Leads limit c first c := by
  induction first with
  | nil => exact .nil c
  | cons e rest ih =>
    exact .shown (h e List.mem_cons_self) (ih fun e' he => h e' (List.mem_cons_of_mem e he))

end Course

/-- Between two states events were recorded that lead from one course to another one. -/
structure Plays (limit : Nat) (c : Course) (st st' : State) (c' : Course) : Prop where
  size_le : st.scopes.size ≤ st'.scopes.size
  leads : ∃ events, st'.trace.toList = st.trace.toList ++ events ∧ Course.Leads limit c events c'

namespace Plays

variable {limit : Nat} {c c₁ c' : Course} {st st₁ st' : State}

theorem of_trace (hsize : st.scopes.size ≤ st'.scopes.size) (htrace : st'.trace = st.trace) :
    Plays limit c st st' c :=
  ⟨hsize, [], by rw [htrace, List.append_nil], .nil c⟩

theorem refl (c : Course) (st : State) : Plays limit c st st c := of_trace (Nat.le_refl _) rfl

theorem trans (h : Plays limit c st st₁ c₁) (h' : Plays limit c₁ st₁ st' c') :
    Plays limit c st st' c' := by
  obtain ⟨first, htrace, hfirst⟩ := h.leads
  obtain ⟨second, htrace', hsecond⟩ := h'.leads
  refine ⟨Nat.le_trans h.size_le h'.size_le, first ++ second, ?_, hfirst.trans hsecond⟩
  rw [htrace', htrace, List.append_assoc]

theorem record {e : Event} (h : Course.Leads limit c [e] c') : Plays limit c st (st.record e) c' :=
  ⟨Nat.le_refl _, [e], by simp, h⟩

theorem of_shows (h : Shows st st') : Plays limit c st st' c := by
  obtain ⟨events, hshown, rfl⟩ := h
  exact ⟨by rw [st.scopes_recordAll], events, st.trace_recordAll events, .of_shown hshown⟩

theorem finish {experiment : Frame} {experiments : List Frame} :
    Plays limit ⟨experiment :: experiments, none⟩ st st ⟨experiments, none⟩ :=
  ⟨Nat.le_refl _, [], (List.append_nil _).symm, .finish (.nil _)⟩

end Plays

/-- The jump that has been asked for is refused, since there were too many. -/
def CommandFault.RefusesJump : CommandFault → Prop
  | .usage (.tooManyJumps _) => True
  | _ => False

/-- The jump that has been asked for is refused: it comes from between brackets, or there were too
many. -/
def ScriptFault.RefusesJump : ScriptFault → Prop
  | .command _ fault => fault.RefusesJump
  | .substituting _ fault _ => fault.RefusesJump
  | .insideSubstitution completion => completion = "gotoblock"
  | _ => False

def Halt.RefusesJump : Halt → Prop
  | .fault e => e.fault.RefusesJump
  | .tooDeep => False

/-- A run ends early. Experiments may then be left that are not over, and a jump that is refused. -/
def Astray (limit : Nat) (c : Course) (experiments : List Frame) (st st' : State) (refused : Prop) :
    Prop :=
  ∃ opened pending, Plays limit c st st' ⟨opened ++ experiments, pending⟩ ∧
    (pending.isSome = true → refused)

section

variable {α β γ : Type} {limit s : Nat} {c c₁ : Course} {experiments : List Frame}
    {st st₁ st' : State}
  {p : Option (List String)} {q : α → Option (List String)} {r : β → Option (List String)}

namespace Astray

variable {refused : Prop}

theorem of_plays (h : Plays limit c st st' ⟨experiments, p⟩) (hp : p.isSome = true → refused) :
    Astray limit c experiments st st' refused :=
  ⟨[], p, h, hp⟩

theorem after (h : Plays limit c st st₁ c₁) (h' : Astray limit c₁ experiments st₁ st' refused) :
    Astray limit c experiments st st' refused := by
  obtain ⟨opened, pending, hplays, hrefused⟩ := h'
  exact ⟨opened, pending, h.trans hplays, hrefused⟩

theorem imp {refused' : Prop} (h : Astray limit c experiments st st' refused)
    (himp : refused → refused') :
    Astray limit c experiments st st' refused' := by
  obtain ⟨opened, pending, hplays, hrefused⟩ := h
  exact ⟨opened, pending, hplays, fun hp => himp (hrefused hp)⟩

theorem outer {pushed : List Frame} (h : Astray limit c (pushed ++ experiments) st st' refused) :
    Astray limit c experiments st st' refused := by
  obtain ⟨opened, pending, hplays, hrefused⟩ := h
  exact ⟨opened ++ pushed, pending, by rwa [List.append_assoc], hrefused⟩

end Astray

/-- From a state on a run plays from a course. Where it ends, the same experiments run, and the jump
is pending that its value says. -/
structure Run.PursuesFrom (limit : Nat) (c : Course) (experiments : List Frame)
    (st : State) (x : Run α) (q : α → Option (List String)) : Prop where
  ends : ∀ {a st'}, x st = .ok a st' → Plays limit c st st' ⟨experiments, q a⟩
  halts : ∀ {halt st'}, x st = .error halt st' → Astray limit c experiments st st' halt.RefusesJump

/-- A run in a scope that begins while the jump `p` is pending, whatever experiments run. -/
def Run.Pursues (limit s : Nat) (p : Option (List String)) (x : Run α)
    (q : α → Option (List String)) :
    Prop :=
  ∀ experiments st, s < st.scopes.size → x.PursuesFrom limit ⟨experiments, p⟩ experiments st q

/-- From a state on an act plays from a course. -/
structure Act.PursuesFrom (limit : Nat) (c : Course) (experiments : List Frame)
    (st : State) (x : Act α) (q : α → Option (List String)) : Prop where
  ends : ∀ {a st'}, x.run st = .ok (.ok a) st' → Plays limit c st st' ⟨experiments, q a⟩
  fails : ∀ {e st'}, x.run st = .ok (.error e) st' → Astray limit c experiments st st' e.RefusesJump
  halts : ∀ {halt st'}, x.run st = .error halt st' →
    Astray limit c experiments st st' halt.RefusesJump

/-- An act in a scope that begins while the jump `p` is pending, whatever experiments run. -/
def Act.Pursues (limit s : Nat) (p : Option (List String)) (x : Act α)
    (q : α → Option (List String)) :
    Prop :=
  ∀ experiments st, s < st.scopes.size → x.PursuesFrom limit ⟨experiments, p⟩ experiments st q

namespace Run

variable {x : Run α} {f : α → Run β}

theorem PursuesFrom.of_ok {a : α} (h : x st = .ok a st')
    (hplays : Plays limit c st st' ⟨experiments, q a⟩) :
    x.PursuesFrom limit c experiments st q := by
  constructor <;> intro _ _ h' <;> rw [h] at h' <;> cases h'
  exact hplays

theorem PursuesFrom.after {y : Run α} (h : Plays limit c st st₁ c₁) (heq : x st = y st₁)
    (hy : y.PursuesFrom limit c₁ experiments st₁ q) : x.PursuesFrom limit c experiments st q :=
  ⟨fun hx => h.trans (hy.ends (heq.symm.trans hx)), fun hx =>
    .after h (hy.halts (heq.symm.trans hx))⟩

theorem PursuesFrom.bind (hx : x.PursuesFrom limit c experiments st q)
    (hf : ∀ a st₁, x st = .ok a st₁ →
      (f a).PursuesFrom limit ⟨experiments, q a⟩ experiments st₁ r) :
    (x >>= f).PursuesFrom limit c experiments st r := by
  cases hr : x st with
  | ok a st₁ => exact .after (hx.ends hr) (bind_of_ok hr) (hf a st₁ hr)
  | error halt st₁ =>
    have hbind : (x >>= f) st = .error halt st₁ := bind_of_error hr
    constructor <;> intro _ _ h <;> rw [hbind] at h <;> cases h
    exact hx.halts hr

theorem Pursues.bind (hx : x.Pursues limit s p q) (hf : ∀ a, (f a).Pursues limit s (q a) r) :
    (x >>= f).Pursues limit s p r := fun experiments st hs =>
  (hx experiments st hs).bind fun a st₁ h =>
    hf a experiments st₁ (Nat.lt_of_lt_of_le hs ((hx experiments st hs).ends h).size_le)

theorem Pursues.pure {a : α} (h : q a = p) : (Pure.pure a : Run α).Pursues limit s p q :=
  fun _ st _ =>
  .of_ok (rfl : (Pure.pure a : Run α) st = .ok a st) (h ▸ .refl _ st)

theorem Pursues.throw {halt : Halt} (h : p.isSome = true → halt.RefusesJump) :
    (MonadExcept.throw halt : Run α).Pursues limit s p q := fun _ st _ =>
  ⟨nofun, fun hx => by cases hx; exact .of_plays (.refl _ st) h⟩

theorem Pursues.halt (fault : ScriptFault) (location : Script.Location) :
    (Run.halt fault location : Run α).Pursues limit s none q := .throw nofun

theorem Pursues.scope (id : Nat) : (Run.scope id).Pursues limit s p fun _ => p := fun _ st _ =>
  .of_ok (rfl : Run.scope id st = .ok (st.scope id) st) (.refl _ st)

theorem Pursues.mapFault {g : ScriptError → ScriptError}
    (hg : ∀ e, e.fault.RefusesJump → (g e).fault.RefusesJump) (hx : x.Pursues limit s p q) :
    (Run.mapFault g x).Pursues limit s p q := by
  intro experiments st hs
  have hfrom := hx experiments st hs
  cases hr : x st with
  | ok a st₁ => exact .of_ok (mapFault_ok_iff.2 hr) (hfrom.ends hr)
  | error halt st₁ =>
    cases halt with
    | fault e =>
      have hmap : Run.mapFault g x st = .error (.fault (g e)) st₁ := by rw [Run.mapFault, hr]
      constructor <;> intro _ _ h <;> rw [hmap] at h <;> cases h
      exact (hfrom.halts hr).imp (hg e)
    | tooDeep =>
      have hmap : Run.mapFault g x st = .error .tooDeep st₁ := by rw [Run.mapFault, hr]
      constructor <;> intro _ _ h <;> rw [hmap] at h <;> cases h
      exact hfrom.halts hr

theorem Pursues.mapM {g : γ → Run α} (h : ∀ c, (g c).Pursues limit s none fun _ => none)
    (cs : List γ) :
    (cs.mapM g).Pursues limit s none fun _ => none := by
  induction cs with
  | nil => exact .pure rfl
  | cons c rest ih =>
    rw [List.mapM_cons]
    exact (h c).bind fun _ => ih.bind fun _ => .pure rfl

end Run

namespace Act

variable {x : Act α} {f : α → Act β}

theorem PursuesFrom.of_ok {a : α} (h : x.run st = .ok (.ok a) st')
    (hplays : Plays limit c st st' ⟨experiments, q a⟩) :
    x.PursuesFrom limit c experiments st q := by
  refine ⟨?_, ?_, ?_⟩ <;> intro _ _ h' <;> rw [h] at h' <;> cases h'
  exact hplays

theorem PursuesFrom.after {y : Act α} (h : Plays limit c st st₁ c₁) (heq : x.run st = y.run st₁)
    (hy : y.PursuesFrom limit c₁ experiments st₁ q) : x.PursuesFrom limit c experiments st q :=
  ⟨fun hx => h.trans (hy.ends (heq.symm.trans hx)), fun hx =>
    .after h (hy.fails (heq.symm.trans hx)),
    fun hx => .after h (hy.halts (heq.symm.trans hx))⟩

theorem PursuesFrom.bind (pushed : List Frame)
    (hx : x.PursuesFrom limit c (pushed ++ experiments) st q)
    (hf : ∀ a st₁, x.run st = .ok (.ok a) st₁ →
      (f a).PursuesFrom limit ⟨pushed ++ experiments, q a⟩ experiments st₁ r) :
    (x >>= f).PursuesFrom limit c experiments st r := by
  cases hr : x.run st with
  | ok result st₁ =>
    cases result with
    | ok a => exact .after (hx.ends hr) (bind_of_ok hr) (hf a st₁ hr)
    | error e =>
      have hbind : (x >>= f).run st = .ok (.error e) st₁ := bind_of_fault hr
      refine ⟨?_, ?_, ?_⟩ <;> intro _ _ h <;> rw [hbind] at h <;> cases h
      exact (hx.fails hr).outer
  | error halt st₁ =>
    have hbind : (x >>= f).run st = .error halt st₁ := bind_of_halt hr
    refine ⟨?_, ?_, ?_⟩ <;> intro _ _ h <;> rw [hbind] at h <;> cases h
    exact (hx.halts hr).outer

theorem Pursues.bind (hx : x.Pursues limit s p q) (hf : ∀ a, (f a).Pursues limit s (q a) r) :
    (x >>= f).Pursues limit s p r := fun experiments st hs =>
  PursuesFrom.bind [] (hx experiments st hs) fun a st₁ h =>
    hf a experiments st₁ (Nat.lt_of_lt_of_le hs ((hx experiments st hs).ends h).size_le)

theorem Pursues.pure {a : α} (h : q a = p) : (Pure.pure a : Act α).Pursues limit s p q :=
  fun _ st _ =>
  .of_ok (rfl : (Pure.pure a : Act α).run st = .ok (.ok a) st) (h ▸ .refl _ st)

theorem Pursues.throw (e : CommandFault) : (MonadExcept.throw e : Act α).Pursues limit s none q :=
  fun _ st _ =>
  ⟨nofun, fun h => by cases h; exact .of_plays (.refl _ st) nofun, nofun⟩

theorem Pursues.ofExcept (result : Except CommandFault α) :
    (liftM result : Act α).Pursues limit s none fun _ => none := by
  cases result with
  | ok a => exact .pure rfl
  | error e => exact .throw e

theorem Pursues.lift {x : Run α} (hx : x.Pursues limit s p q) :
    (liftM x : Act α).Pursues limit s p q := by
  intro experiments st hs
  have hfrom := hx experiments st hs
  cases hr : x st with
  | ok a st₁ => exact .of_ok (lift_of_ok hr) (hfrom.ends hr)
  | error halt st₁ =>
    have hlift : (liftM x : Act α).run st = .error halt st₁ := lift_of_error hr
    refine ⟨?_, ?_, ?_⟩ <;> intro _ _ h <;> rw [hlift] at h <;> cases h
    exact hfrom.halts hr

theorem Pursues.ite {b : Prop} [Decidable b] {y : Act α} (hx : x.Pursues limit s p q)
    (hy : y.Pursues limit s p q) : (if b then x else y).Pursues limit s p q := by
  split
  · exact hx
  · exact hy

theorem Quiet.pursues (hx : Act.Quiet x) (hq : Act.Gives x fun a => q a = none) :
    x.Pursues limit s none q :=
  fun experiments st _ =>
  ⟨fun h => by rw [hq h]; exact .of_shows (hx.shows h),
    fun h => .of_plays (.of_shows (hx.shows h)) nofun,
    fun h => (hx.goesOn h).elim⟩

theorem Pursues.modifyScope (call : Call) (f : Scope → Scope) :
    (call.modifyScope f).Pursues limit s p fun _ => p := fun _ st _ =>
  .of_ok (rfl : (call.modifyScope f).run st = .ok (.ok ()) (st.modifyScope call.scope f))
    (.of_trace (Nat.le_of_eq (st.size_modifyScope f _).symm) rfl)

end Act

end

end RadarTimeline.Console
