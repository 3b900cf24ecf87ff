import RadarTimeline.Console.Evaluation

namespace RadarTimeline.Console.State

variable (st : State) {s id : Nat} (f : Scope → Scope)

def session (st : State) (s : Nat) : SessionState := (st.scope s).state

def withSession (st : State) (s : Nat) (t : SessionState) : State :=
  st.modifyScope s fun sc => { sc with state := t }

def withEntry (st : State) (s : Nat) (words : List String) : State :=
  st.modifyScope s fun sc => { sc with log := sc.log.push { words } }

def withEntryChanged (st : State) (s entry : Nat) (f : Invocation → Invocation) : State :=
  st.modifyScope s fun sc => { sc with log := sc.log.modify entry f }

def begin (st : State) (s : Nat) (words : List String) (handler : Option Handler) : State :=
  (st.withEntry s words).record (.command s words handler)

/-- The scope of a call is opened, and noted in a log entry of the calling scope. -/
def openCall (st : State) (s entry : Nat) (name : String) (bindings : List (String × String)) :
    State :=
  State.withEntryChanged { st with scopes := st.scopes.push ((st.scope s).child s name bindings) }
    s entry fun e => { e with call := some st.scopes.size }

def closeCall (st : State) (s child : Nat) : State :=
  st.withSession s ((st.session s).merge (st.session child))

def recordAll (st : State) (events : List Event) : State := events.foldl record st

@[simp] theorem scopes_record (e : Event) : (st.record e).scopes = st.scopes := rfl

@[simp] theorem trace_record (e : Event) : (st.record e).trace = st.trace.push e := rfl

@[simp] theorem trace_modifyScope (s : Nat) : (st.modifyScope s f).trace = st.trace := rfl

@[simp] theorem scope_record (e : Event) (id : Nat) : (st.record e).scope id = st.scope id := rfl

@[simp] theorem size_modifyScope (s : Nat) : (st.modifyScope s f).scopes.size = st.scopes.size :=
  Array.size_modify

theorem scope_modifyScope (h : s < st.scopes.size) :
    (st.modifyScope s f).scope s = f (st.scope s) := by
  simp [scope, modifyScope, Array.getD_eq_getD_getElem?, Array.getElem_modify, h]

theorem scope_modifyScope_ne (h : id ≠ s) : (st.modifyScope s f).scope id = st.scope id := by
  simp [scope, modifyScope, Array.getD_eq_getD_getElem?, Array.getElem?_modify, h.symm]

theorem modifyScope_congr {f g : Scope → Scope} (h : f (st.scope s) = g (st.scope s)) :
    st.modifyScope s f = st.modifyScope s g := by
  have hscopes : st.scopes.modify s f = st.scopes.modify s g := by
    refine Array.ext (by simp) fun i hi _ => ?_
    rw [Array.size_modify] at hi
    rw [Array.getElem_modify, Array.getElem_modify]
    split
    · next he =>
      subst he
      simpa [scope, Array.getD_eq_getD_getElem?, hi] using h
    · rfl
  rw [modifyScope, hscopes, modifyScope]

theorem modifyScope_self (s : Nat) : (st.modifyScope s fun sc => sc) = st := by
  have hscopes : (st.scopes.modify s fun sc => sc) = st.scopes := by
    refine Array.ext (by simp) fun i _ _ => ?_
    rw [Array.getElem_modify]
    split <;> rfl
  rw [modifyScope, hscopes]

theorem modifyScope_modifyScope (s : Nat) (g : Scope → Scope) :
    (st.modifyScope s f).modifyScope s g = st.modifyScope s fun sc => g (f sc) := by
  have hscopes : (st.scopes.modify s f).modify s g = st.scopes.modify s fun sc => g (f sc) := by
    refine Array.ext (by simp) fun i _ _ => ?_
    rw [Array.getElem_modify, Array.getElem_modify, Array.getElem_modify]
    split <;> rfl
  rw [modifyScope, modifyScope, hscopes, modifyScope]

@[simp] theorem withSession_session (s : Nat) : st.withSession s (st.session s) = st :=
  (st.modifyScope_congr (g := fun sc => sc) rfl).trans (st.modifyScope_self s)

@[simp] theorem withSession_withSession (s : Nat) (t u : SessionState) :
    (st.withSession s t).withSession s u = st.withSession s u :=
  st.modifyScope_modifyScope _ s _

theorem session_withSession (h : s < st.scopes.size) (t : SessionState) :
    (st.withSession s t).session s = t := by
  rw [session, withSession, scope_modifyScope st _ h]

@[simp] theorem size_openCall (s entry : Nat) (name : String) (bindings : List (String × String)) :
    (st.openCall s entry name bindings).scopes.size = st.scopes.size + 1 := by
  simp [openCall, withEntryChanged]

theorem scope_openCall_ne (entry : Nat) (name : String) (bindings : List (String × String))
    (hid : id < st.scopes.size) (h : id ≠ s) :
    (st.openCall s entry name bindings).scope id = st.scope id := by
  rw [openCall, withEntryChanged, scope_modifyScope_ne _ _ h]
  simp [scope, Array.getD_eq_getD_getElem?, Array.getElem?_push_lt hid, hid]

theorem scope_openCall (entry : Nat) (name : String) (bindings : List (String × String))
    (h : s < st.scopes.size) :
    (st.openCall s entry name bindings).scope s =
      { st.scope s with log := (st.scope s).log.modify entry
                          fun e => { e with call := some st.scopes.size } } := by
  rw [openCall, withEntryChanged, scope_modifyScope _ _ (by simp; omega)]
  simp [scope, Array.getD_eq_getD_getElem?, Array.getElem?_push_lt h, h]

theorem scope_openCall_child (entry : Nat) (name : String) (bindings : List (String × String))
    (h : s < st.scopes.size) :
    (st.openCall s entry name bindings).scope st.scopes.size =
      (st.scope s).child s name bindings := by
  rw [openCall, withEntryChanged, scope_modifyScope_ne _ _ (Nat.ne_of_gt h)]
  simp [scope, Array.getD_eq_getD_getElem?]

theorem recordAll_append (first second : List Event) :
    st.recordAll (first ++ second) = (st.recordAll first).recordAll second :=
  List.foldl_append

theorem modifyScope_recordAll (s : Nat) (events : List Event) :
    (st.recordAll events).modifyScope s f = (st.modifyScope s f).recordAll events := by
  induction events generalizing st with
  | nil => rfl
  | cons e rest ih => exact ih (st.record e)

@[simp] theorem scopes_recordAll (events : List Event) : (st.recordAll events).scopes =
    st.scopes := by
  induction events generalizing st with
  | nil => rfl
  | cons e rest ih => exact ih (st.record e)

theorem trace_recordAll (events : List Event) :
    (st.recordAll events).trace.toList = st.trace.toList ++ events := by
  induction events generalizing st with
  | nil => exact (List.append_nil _).symm
  | cons e rest ih =>
    rw [recordAll, List.foldl_cons, ← recordAll, ih]
    simp

end RadarTimeline.Console.State
