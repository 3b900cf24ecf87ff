import RadarTimeline.Proofs.Console.Loading
import Mathlib.Order.Nat

namespace RadarTimeline.Console

/-- Something is shown, which changes nothing else. -/
def Event.Shown : Event → Prop
  | .printed _ | .logged _ => True
  | _ => False

/-- The last log entry of a scope has just been made. -/
def State.Fresh (st : State) (s entry : Nat) : Prop :=
  ∃ (before : Array Invocation) (words : List String),
    (st.scope s).log = before.push { words } ∧ before.size = entry

theorem State.Fresh.of_scopes {st st₁ : State} {s entry : Nat} (h : st.Fresh s entry)
    (hscopes : st₁.scopes = st.scopes) : st₁.Fresh s entry := by
  rw [Fresh, scope, hscopes]
  exact h

theorem State.Fresh.withEntry {st : State} {s : Nat} {words : List String} {e : Event}
    (h : s < st.scopes.size) : ((st.withEntry s words).record e).Fresh s (st.scope s).log.size := by
  refine ⟨(st.scope s).log, words, ?_, rfl⟩
  rw [scope_record, State.withEntry, st.scope_modifyScope _ h]

/-- What happens in a scope. The log entries from `base` on are those of the run. -/
inductive Move (s base : Nat) (st : State) : State → Prop
  | shown {e : Event} (h : e.Shown) : Move s base st (st.record e)
  | assigned (name value : String) :
    Move s base st (st.modifyScope s fun sc => { sc with bindings := sc.bindings.set name value })
  | defined (name : String) (p : Procedure) :
    Move s base st (st.modifyScope s fun sc => { sc with procedures := sc.procedures.set name p })
  | supplied (args : List String) : Move s base st (st.withSession s { st.session s with args })
  /-- A command runs, and an operator that loads has loaded. -/
  | ran (words : List String) (handler : Option Handler) :
    Move s base st <| (st.begin s words handler).withSession s <|
      (Event.command s words handler).load (st.session s)
  | jumped (words : List String) : Move s base st ((st.withEntry s words).record (.jump s words))
  | settled {entry : Nat} (h : base ≤ entry) (result : String) :
    Move s base st (st.withEntryChanged s entry fun e => { e with result })

/-- What happens in a scope until a run in it completes. The trail of a call is one in its own
scope. -/
inductive Trail : (s base : Nat) → State → State → Prop
  | nil (s base : Nat) (st : State) : Trail s base st st
  | move {s base : Nat} {st st₁ st' : State} (first : Move s base st st₁)
    (rest : Trail s base st₁ st') : Trail s base st st'
  | call {s base entry : Nat} {st st₁ st' : State} (h : base ≤ entry) (fresh : st.Fresh s entry)
    (name : String) (bindings : List (String × String))
    (body : Trail st.scopes.size 0 (st.openCall s entry name bindings) st₁)
    (rest : Trail s base (st₁.closeCall s st.scopes.size) st') : Trail s base st st'

/-- What happens in a scope until a run in it halts. -/
inductive Stop : (s base : Nat) → State → State → Prop
  | after {s base : Nat} {st st' : State} (before : Trail s base st st') : Stop s base st st'
  /-- The run of a call halts. -/
  | within {s base entry : Nat} {st st₁ st' : State} (before : Trail s base st st₁)
    (h : base ≤ entry) (fresh : st₁.Fresh s entry) (name : String)
    (bindings : List (String × String))
    (body : Stop st₁.scopes.size 0 (st₁.openCall s entry name bindings) st') : Stop s base st st'
  /-- An operator fails; it may have loaded some of what it should. -/
  | spoiled {s base : Nat} {st st₁ : State} (before : Trail s base st st₁) (words : List String)
    (o : Operator) (t : SessionState) (shown : List Event) (h : ∀ e ∈ shown, e.Shown) :
    Stop s base st (((st₁.begin s words (some (.operator o))).withSession s t).recordAll shown)

section

variable {s base base' entry : Nat} {st st₁ st' st'' : State}

theorem Move.trail (h : Move s base st st') : Trail s base st st' := .move h (.nil ..)

theorem Trail.trans (h : Trail s base st st₁) (h' : Trail s base st₁ st') :
    Trail s base st st' := by
  induction h with
  | nil => exact h'
  | move first _ ih => exact .move first (ih h')
  | call h fresh name bindings body _ _ ih => exact .call h fresh name bindings body (ih h')

theorem Trail.stop (h : Trail s base st st₁) (h' : Stop s base st₁ st') : Stop s base st st' := by
  cases h' with
  | after before => exact .after (h.trans before)
  | within before hb fresh name bindings body =>
    exact .within (h.trans before) hb fresh name bindings body
  | spoiled before words o t shown hs => exact .spoiled (h.trans before) words o t shown hs

theorem Trail.shown {events : List Event} (h : ∀ e ∈ events, e.Shown) (st : State) :
    Trail s base st (st.recordAll events) := by
  induction events generalizing st with
  | nil => exact .nil ..
  | cons e rest ih =>
    exact .move (.shown (h e List.mem_cons_self))
      (ih (fun e' he => h e' (List.mem_cons_of_mem e he)) _)

end

/-- A run in a scope leaves all others alone, and of its own it keeps what no command changes, with
the log entries before `base`. -/
structure Isolated (s base : Nat) (st st' : State) : Prop where
  size_le : st.scopes.size ≤ st'.scopes.size
  others : ∀ id < st.scopes.size, id ≠ s → st'.scope id = st.scope id
  parent : (st'.scope s).parent = (st.scope s).parent
  name : (st'.scope s).name = (st.scope s).name
  inherited : (st'.scope s).inherited = (st.scope s).inherited
  log_le : (st.scope s).log.size ≤ (st'.scope s).log.size
  entries : ∀ i < base, (st'.scope s).log[i]? = (st.scope s).log[i]?

namespace Isolated

variable {s base : Nat} {st st₁ st' : State}

theorem refl (s base : Nat) (st : State) : Isolated s base st st :=
  ⟨le_rfl, fun _ _ _ => rfl, rfl, rfl, rfl, le_rfl, fun _ _ => rfl⟩

theorem trans (h : Isolated s base st st₁) (h' : Isolated s base st₁ st') :
    Isolated s base st st' where
  size_le := h.size_le.trans h'.size_le
  others id hid hs := (h'.others id (hid.trans_le h.size_le) hs).trans (h.others id hid hs)
  parent := h'.parent.trans h.parent
  name := h'.name.trans h.name
  inherited := h'.inherited.trans h.inherited
  log_le := h.log_le.trans h'.log_le
  entries i hi := (h'.entries i hi).trans (h.entries i hi)

theorem modifyScope (f : Scope → Scope) (hparent : (f (st.scope s)).parent = (st.scope s).parent)
    (hname : (f (st.scope s)).name = (st.scope s).name)
    (hinherited : (f (st.scope s)).inherited = (st.scope s).inherited)
    (hlog : (st.scope s).log.size ≤ (f (st.scope s)).log.size)
    (hentries : ∀ i < base, (f (st.scope s)).log[i]? = (st.scope s).log[i]?)
    (hs : s < st.scopes.size) : Isolated s base st (st.modifyScope s f) := by
  refine ⟨(st.size_modifyScope f s).ge, fun id _ hne => st.scope_modifyScope_ne f hne, ?_, ?_,
    ?_, ?_, ?_⟩ <;>
    rw [st.scope_modifyScope f hs] <;> assumption

theorem record (e : Event) : Isolated s base st (st.record e) :=
  ⟨le_rfl, fun _ _ _ => rfl, rfl, rfl, rfl, le_rfl, fun _ _ => rfl⟩

theorem recordAll (events : List Event) : Isolated s base st (st.recordAll events) := by
  induction events generalizing st with
  | nil => exact refl s base st
  | cons e rest ih => exact (record e).trans ih

theorem withSession (hs : s < st.scopes.size) (t : SessionState) :
    Isolated s base st (st.withSession s t) :=
  modifyScope _ rfl rfl rfl le_rfl (fun _ _ => rfl) hs

theorem withEntry (hs : s < st.scopes.size) (hb : base ≤ (st.scope s).log.size)
    (words : List String) :
    Isolated s base st (st.withEntry s words) := by
  refine modifyScope _ rfl rfl rfl (by simp) (fun i hi => ?_) hs
  exact Array.getElem?_push_lt (hi.trans_le hb) |>.trans (Array.getElem?_eq_getElem _).symm

theorem withEntryChanged (hs : s < st.scopes.size) {entry : Nat} (hb : base ≤ entry)
    (f : Invocation → Invocation) : Isolated s base st (st.withEntryChanged s entry f) := by
  refine modifyScope _ rfl rfl rfl (by simp) (fun i hi => ?_) hs
  rw [Array.getElem?_modify, if_neg (Nat.ne_of_gt (hi.trans_le hb))]

theorem openCall (hs : s < st.scopes.size) {entry : Nat} (hb : base ≤ entry) (name : String)
    (bindings : List (String × String)) :
    Isolated s base st (st.openCall s entry name bindings) := by
  have hscope := st.scope_openCall entry name bindings hs
  refine ⟨by simp, fun id hid hne => st.scope_openCall_ne entry name bindings hid hne,
    ?_, ?_, ?_, ?_,
    fun i hi => ?_⟩ <;> rw [hscope]
  · simp
  · rw [Array.getElem?_modify, if_neg (Nat.ne_of_gt (hi.trans_le hb))]

/-- What a call does in its own scope is nothing to the scopes that were there before. -/
theorem of_call {opened : State} (h : Isolated s base st opened)
    (body : Isolated st.scopes.size 0 opened st') (hs : s < st.scopes.size) :
    Isolated s base st st' := by
  have kept : ∀ id < st.scopes.size, st'.scope id = opened.scope id := fun id hid =>
    body.others id (hid.trans_le h.size_le) (Nat.ne_of_lt hid)
  refine ⟨h.size_le.trans body.size_le, fun id hid hne => ?_, ?_, ?_, ?_, ?_, fun i hi => ?_⟩
  · rw [kept id hid, h.others id hid hne]
  · rw [kept s hs, h.parent]
  · rw [kept s hs, h.name]
  · rw [kept s hs, h.inherited]
  · rw [kept s hs]
    exact h.log_le
  · rw [kept s hs, h.entries i hi]

end Isolated

/-- A run in a scope that is there, with a log that has the entries to be kept. -/
structure Within (s base : Nat) (st : State) : Prop where
  lt_size : s < st.scopes.size
  le_log : base ≤ (st.scope s).log.size

section

variable {s base entry : Nat} {st st₁ st' : State}

theorem Isolated.within (h : Isolated s base st st') (hw : Within s base st) : Within s base st' :=
  ⟨hw.lt_size.trans_le h.size_le, hw.le_log.trans h.log_le⟩

theorem Within.openCall (st : State) (s entry : Nat) (name : String)
    (bindings : List (String × String)) :
    Within st.scopes.size 0 (st.openCall s entry name bindings) :=
  ⟨by simp, Nat.zero_le _⟩

theorem Move.isolated (h : Move s base st st') (hw : Within s base st) :
    Isolated s base st st' := by
  cases h with
  | shown => exact .record _
  | assigned => exact .modifyScope _ rfl rfl rfl le_rfl (fun _ _ => rfl) hw.lt_size
  | defined => exact .modifyScope _ rfl rfl rfl le_rfl (fun _ _ => rfl) hw.lt_size
  | supplied => exact .withSession hw.lt_size _
  | ran words handler =>
    have hbegin : Isolated s base st (st.begin s words handler) :=
      (Isolated.withEntry hw.lt_size hw.le_log words).trans (.record _)
    exact hbegin.trans (.withSession (hbegin.within hw).lt_size _)
  | jumped words => exact (Isolated.withEntry hw.lt_size hw.le_log words).trans (.record _)
  | settled hb => exact .withEntryChanged hw.lt_size hb _

theorem Isolated.closeCall (hw : Within s base st) (child : Nat) :
    Isolated s base st (st.closeCall s child) :=
  .withSession hw.lt_size _

theorem Trail.isolated (h : Trail s base st st') (hw : Within s base st) :
    Isolated s base st st' := by
  induction h with
  | nil => exact .refl ..
  | move first _ ih =>
    have hfirst := first.isolated hw
    exact hfirst.trans (ih (hfirst.within hw))
  | @call s base entry st st₁ st' hb _ name bindings _ _ ihbody ihrest =>
    have hbody : Isolated s base st st₁ := (Isolated.openCall hw.lt_size hb name bindings).of_call
      (ihbody (.openCall st s entry name bindings)) hw.lt_size
    have hclose := hbody.trans (.closeCall (hbody.within hw) st.scopes.size)
    exact hclose.trans (ihrest (hclose.within hw))

theorem Stop.isolated (h : Stop s base st st') (hw : Within s base st) :
    Isolated s base st st' := by
  induction h with
  | after before => exact before.isolated hw
  | within before hb _ name bindings _ ih =>
    have hbefore := before.isolated hw
    have hw := hbefore.within hw
    exact hbefore.trans <|
      (Isolated.openCall hw.lt_size hb name bindings).of_call (ih (.openCall ..)) hw.lt_size
  | @spoiled s base st st₁ before words o =>
    have hbefore := before.isolated hw
    have hw := hbefore.within hw
    have hbegin : Isolated s base st₁ (st₁.begin s words (some (.operator o))) :=
      (Isolated.withEntry hw.lt_size hw.le_log words).trans (.record _)
    exact (hbefore.trans hbegin).trans <|
      (Isolated.withSession (hbegin.within hw).lt_size _).trans (.recordAll _)

theorem Trail.within (h : Trail s base st st') (hw : Within s base st) : Within s base st' :=
  (h.isolated hw).within hw

end

end RadarTimeline.Console
