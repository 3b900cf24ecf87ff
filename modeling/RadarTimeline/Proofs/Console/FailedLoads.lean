import RadarTimeline.Proofs.Console.Loaders

namespace RadarTimeline.Console

variable {α β : Type} {s : Nat} {st st₁ st' : State} {t u : SessionState}

/-- From a state on, an act that fails leaves a session as `t`, and all it does otherwise is to show
something. -/
def Act.FailsLeaving (s : Nat) (st : State) (t : SessionState) (x : Act α) : Prop :=
  ∀ ⦃e st'⦄, x.run st = .ok (.error e) st' → Shows (st.withSession s t) st'

/-- An act that does not fail. -/
def Act.Succeeds (x : Act α) : Prop := ∀ ⦃st e st'⦄, x.run st ≠ .ok (.error e) st'

namespace Act

variable {x : Act α} {f : α → Act β} {call : Call}

theorem Succeeds.pure (a : α) : Succeeds (Pure.pure a : Act α) := nofun

theorem Succeeds.log (level : Log.Level) (message : String) : Succeeds (call.log level message) :=
  nofun

theorem Succeeds.getState : Succeeds (Operator.getState call) := nofun

theorem Succeeds.modifyState (g : SessionState → SessionState) : Succeeds (call.modifyState g) :=
  nofun

theorem Succeeds.bind (hx : Succeeds x) (hf : ∀ a, Succeeds (f a)) : Succeeds (x >>= f) := by
  intro st e st' h
  cases hr : x.run st with
  | error halt st₁ =>
    rw [bind_of_halt hr] at h
    cases h
  | ok r st₁ =>
    cases r with
    | error e => exact hx hr
    | ok a => exact hf a ((bind_of_ok hr).symm.trans h)

namespace FailsLeaving

theorem of_succeeds (hx : Succeeds x) : FailsLeaving s st t x := fun _ _ h => (hx h).elim

theorem of_quiet (hx : Quiet x) (ht : t = st.session s) : FailsLeaving s st t x := by
  intro e st' h
  rw [ht, st.withSession_session]
  exact hx.shows h

theorem throw (e : CommandFault) : FailsLeaving s st (st.session s) (MonadExcept.throw e : Act α) :=
  of_quiet (.throw e) rfl

/-- An act that only shows something goes in front. Where it fails, the session is as it was. -/
theorem quiet_bind (hx : Quiet x) (ht : ∀ e st₁, x.run st = .ok (.error e) st₁ → t = st.session s)
    (hf : ∀ a st₁, x.run st = .ok (.ok a) st₁ → st₁.scopes = st.scopes →
      FailsLeaving s st₁ t (f a)) :
    FailsLeaving s st t (x >>= f) := by
  intro e st' h
  cases hr : x.run st with
  | error halt st₁ => exact (hx.goesOn hr).elim
  | ok r st₁ =>
    cases r with
    | error e₁ =>
      rw [bind_of_fault hr] at h
      cases h
      exact of_quiet hx (ht _ _ hr) hr
    | ok a =>
      rw [bind_of_ok hr] at h
      exact ((hx.shows hr).withSession s t).trans (hf a st₁ hr (hx.shows hr).scopes h)

theorem keep_bind (hx : Quiet x)
    (hf : ∀ a st₁, x.run st = .ok (.ok a) st₁ → FailsLeaving s st₁ (st₁.session s) (f a)) :
    FailsLeaving s st (st.session s) (x >>= f) :=
  quiet_bind hx (fun _ _ _ => rfl) fun a st₁ h hscopes => session_of_scopes hscopes s ▸ hf a st₁ h

/-- An act that alters the session and does not fail goes in front. -/
theorem alters_bind (hx : Alters s st u x) (hok : Succeeds x)
    (hf : ∀ a st₁, x.run st = .ok (.ok a) st₁ → FailsLeaving s st₁ t (f a)) :
    FailsLeaving s st t (x >>= f) := by
  intro e st' h
  cases hr : x.run st with
  | error halt st₁ => exact (hx.goesOn hr).elim
  | ok r st₁ =>
    cases r with
    | error e₁ => exact (hok hr).elim
    | ok a =>
      rw [bind_of_ok hr] at h
      have hshows : Shows (st.withSession s t) (st₁.withSession s t) := by
        simpa using (hx.ends hr).withSession s t
      exact hshows.trans (hf a st₁ hr h)

theorem then_succeeds (hx : FailsLeaving s st t x) (hf : ∀ a, Succeeds (f a)) :
    FailsLeaving s st t (x >>= f) := by
  intro e st' h
  cases hr : x.run st with
  | error halt st₁ =>
    rw [bind_of_halt hr] at h
    cases h
  | ok r st₁ =>
    cases r with
    | error e₁ =>
      rw [bind_of_fault hr] at h
      cases h
      exact hx hr
    | ok a => exact (hf a ((bind_of_ok hr).symm.trans h)).elim

theorem ite {c : Prop} [Decidable c] {x y : Act α} (hx : c → FailsLeaving s st t x)
    (hy : ¬c → FailsLeaving s st t y) : FailsLeaving s st t (if c then x else y) := by
  split
  · next h => exact hx h
  · next h => exact hy h

end FailsLeaving

end Act

namespace Operator

def withProgram (controller : String) (s : SessionState) (file : String) : SessionState :=
  if controller = "transmitter" then { s with files := { s.files with transmitter := file } }
  else { s with files := { s.files with receiver := file } }

def programOf (controller : String) (s : SessionState) : String :=
  if controller = "transmitter" then s.files.transmitter else s.files.receiver

/-- The programs that options load in front of the first option that is not known. -/
def programsBefore : List String → List String
  | option :: value :: rest =>
    match Text.unitAt? option.toList 1 with
    | some 'f' => value :: programsBefore rest
    | some 'l' => programsBefore rest
    | some 's' => programsBefore rest
    | _ => []
  | _ => []

/-- The one controller that the first word chooses and its options, which come with a value each. -/
def chosenOptions? : List String → Option (String × List String)
  | which :: options =>
    match controllers.filter (·.startsWith which) with
    | [controller] => if options.length % 2 = 0 then some (controller, options) else none
    | _ => none
  | [] => none

/-- The arguments from the file on, which comes first or after the receiver. -/
def filterWords (args : List String) : List String :=
  if (receiverLine? (args.headD "")).isSome then args.tail else args

def withFilter (file : String) (s : SessionState) : SessionState :=
  { s with files := { s.files with filter := file } }

/-- What an operator that fails makes of what is loaded. -/
def leftBehind (args : List String) (s : SessionState) : Operator → SessionState
  | .loadradar =>
    match chosenOptions? args with
    | some (controller, options) => (programsBefore options).foldl (withProgram controller) s
    | none => s
  | .loadfilter =>
    match filterWords args with
    | file :: _ :: _ => withFilter file s
    | _ => s
  | _ => s

/-- The last file that an operator loads before it can fail is not the one that is loaded
already. -/
def HalfLoads (args : List String) (s : SessionState) : Operator → Prop
  | .loadradar => ∃ controller options file, chosenOptions? args = some (controller, options) ∧
      (programsBefore options).getLast? = some file ∧ file ≠ programOf controller s
  | .loadfilter => ∃ file list options, filterWords args = file :: list :: options ∧
      file ≠ s.files.filter
  | _ => False

variable (call : Call) (args : List String) {st st' : State}

theorem withProgram_withProgram (controller : String) (s : SessionState) (file file' : String) :
    withProgram controller (withProgram controller s file) file' =
      withProgram controller s file' := by
  unfold withProgram
  split <;> rfl

theorem foldl_withProgram (controller : String) (s : SessionState) (before : List String)
    (file : String) :
    (before ++ [file]).foldl (withProgram controller) s = withProgram controller s file := by
  induction before generalizing s with
  | nil => rfl
  | cons first before ih =>
    rw [List.cons_append, List.foldl_cons, ih, withProgram_withProgram]

theorem withProgram_eq_self_iff {controller file : String} {s : SessionState} :
    withProgram controller s file = s ↔ file = programOf controller s := by
  obtain ⟨_, _, _, ⟨receiver, transmitter, filter, correlator, tables⟩, _, _⟩ := s
  unfold withProgram programOf
  split <;> simp

/-- A failure changes the session exactly if it comes after something new was loaded. -/
theorem leftBehind_eq_self_iff (s : SessionState) (o : Operator) :
    o.leftBehind args s = s ↔ ¬o.HalfLoads args s := by
  cases o with
  | loadradar =>
    rw [leftBehind, HalfLoads]
    cases chosenOptions? args with
    | none => simp
    | some chosen =>
      obtain ⟨controller, options⟩ := chosen
      cases hlast : (programsBefore options).getLast? with
      | none => simp [List.getLast?_eq_none_iff.1 hlast]
      | some file =>
        obtain ⟨before, hprograms⟩ := List.getLast?_eq_some_iff.1 hlast
        dsimp only
        rw [hprograms, foldl_withProgram, withProgram_eq_self_iff]
        simp [hprograms]
  | loadfilter =>
    rw [leftBehind, HalfLoads]
    obtain ⟨_, _, _, ⟨receiver, transmitter, filter, correlator, tables⟩, _, _⟩ := s
    rcases filterWords args with _ | ⟨file, _ | ⟨list, options⟩⟩ <;> simp [withFilter]
  | _ => simp [leftBehind, HalfLoads]

theorem selectLo_failsLeaving :
    Act.FailsLeaving call.scope st (st.session call.scope) (selectLo call args) := by
  unfold selectLo
  split
  · refine .keep_bind (getState_quiet call) fun state st₁ _ => ?_
    dsimp only
    refine .ite (fun _ => .keep_bind (.usage _) nofun) fun _ => ?_
    refine .ite (fun _ => .keep_bind (.usage _) nofun) fun _ => ?_
    split
    · exact .throw _
    · refine .keep_bind (selectedOscillator_quiet _ args) fun kind st₂ _ => .of_succeeds ?_
      exact (Act.Succeeds.modifyState _).bind fun _ => (Act.Succeeds.log _ _).bind fun _ => .pure _
  · exact .throw _

theorem loadFrequency_failsLeaving :
    Act.FailsLeaving call.scope st (st.session call.scope) (loadFrequency call args) := by
  refine .keep_bind (.require args 2 _) fun _ st₁ _ => ?_
  refine .keep_bind (channelWords_quiet args) fun a st₂ _ => .of_succeeds ?_
  exact (Act.Succeeds.modifyState _).bind fun _ => Act.Succeeds.getState.bind fun _ =>
    (Act.Succeeds.log _ _).bind fun _ => .pure _

theorem startData_failsLeaving :
    Act.FailsLeaving call.scope st (st.session call.scope) (startData call args) := by
  unfold startData
  dsimp only
  split
  · refine .keep_bind (getState_quiet call) fun state st₁ _ => ?_
    refine .ite (fun _ => .of_succeeds (.pure _)) fun _ => .ite (fun _ => .throw _) fun _ =>
      .of_succeeds ?_
    exact (Act.Succeeds.modifyState _).bind fun _ => (Act.Succeeds.log _ _).bind fun _ => .pure _
  · exact .throw _

theorem loadFilter_failsLeaving (hs : call.scope < st.scopes.size) :
    Act.FailsLeaving call.scope st (leftBehind args (st.session call.scope) .loadfilter)
      (loadFilter call args) := by
  have hlength : (filterWords args).length ≤ args.length := by
    unfold filterWords
    split <;> simp
  rw [leftBehind]
  unfold loadFilter
  dsimp only
  rw [← filterWords]
  rcases hwords : filterWords args with _ | ⟨file, _ | ⟨list, options⟩⟩
  · exact .keep_bind (.require args 2 _) fun _ _ _ => .throw _
  · exact .keep_bind (.require args 2 _) fun _ _ _ => .throw _
  · rw [hwords, List.length_cons, List.length_cons] at hlength
    have hrequire : Call.require args 2 filterUsage = pure () := if_neg (by omega)
    rw [hrequire]
    refine .quiet_bind (.pure ()) nofun fun _ st₁ _ hscopes => ?_
    rw [← session_of_scopes hscopes]
    have hs₁ : call.scope < st₁.scopes.size := by rwa [hscopes]
    have halters : Act.Alters call.scope st₁ (withFilter file (st₁.session call.scope))
        (call.modifyState (withFilter file)) := .modifyState _ rfl
    refine .alters_bind halters (.modifyState _) fun _ st₂ h => .of_quiet ?_ ?_
    · exact (readChannels_quiet list).bind fun _ => (Act.Quiet.log _ _).bind fun _ => .done
    · rw [session_of_scopes (halters.ends h).scopes, st₁.session_withSession hs₁]

/-- An option that is known loads its program or none, and does not fail. -/
theorem loadOptions_failsLeaving (controller : String) (options : List String)
    (hs : call.scope < st.scopes.size) :
    Act.FailsLeaving call.scope st
      ((programsBefore options).foldl (withProgram controller) (st.session call.scope))
      (loadOptions call controller options) := by
  induction options using List.twoStepInduction generalizing st with
  | nil => exact .of_succeeds (.pure ())
  | singleton option => exact .of_succeeds (.pure ())
  | cons_cons option value rest ih _ =>
    -- what is left is what the other options leave of the session that the first one makes
    have hnext : ∀ {u} {x : Act Unit}, Act.Alters call.scope st u x → Act.Succeeds x →
        Act.FailsLeaving call.scope st ((programsBefore rest).foldl (withProgram controller) u)
          (x >>= fun _ => loadOptions call controller rest) := by
      intro u x hx hok
      refine .alters_bind hx hok fun _ st₁ h => ?_
      have hscopes := (hx.ends h).scopes
      have hs₁ : call.scope < st₁.scopes.size := by
        rw [hscopes, State.withSession, st.size_modifyScope]
        exact hs
      have hrest := ih hs₁
      rwa [session_of_scopes hscopes, st.session_withSession hs] at hrest
    change Act.FailsLeaving _ _ _ (loadOption call controller option value >>= _)
    rw [programsBefore]
    -- which programs an option names is settled before what the command does with it
    split
    · next h =>
      rw [loadOption, h]
      refine hnext (.modifyState_bind ?_ (.log _ _) hs)
        ((Act.Succeeds.modifyState _).bind fun _ => .log _ _)
      unfold withProgram
      split <;> rfl
    · next h =>
      rw [loadOption, h]
      exact hnext (.of_quiet (.log _ _) rfl) (.log _ _)
    · next h =>
      rw [loadOption, h]
      exact hnext (.of_quiet (.log _ _) rfl) (.log _ _)
    · unfold loadOption
      split
      iterate 3 contradiction
      exact .keep_bind (.usage _) nofun

theorem chosenOptions?_of_choose_fails {which : String} {options : List String} {e : CommandFault}
    (h : (choose controllers which).run st = .ok (.error e) st') :
    chosenOptions? (which :: options) = none := by
  rw [chosenOptions?]
  split
  · next controller hone =>
    rw [choose, hone] at h
    cases h
  · rfl

theorem loadRadar_failsLeaving (hs : call.scope < st.scopes.size) :
    Act.FailsLeaving call.scope st (leftBehind args (st.session call.scope) .loadradar)
      (loadRadar call args) := by
  rw [leftBehind]
  cases args with
  | nil => exact .throw _
  | cons which options =>
    refine .quiet_bind (choose_quiet _ _) (fun e st₁ h => ?_) fun controller st₁ h hscopes => ?_
    · rw [chosenOptions?_of_choose_fails h]
    · rw [chosenOptions?, choose_gives _ _ h, ← session_of_scopes hscopes]
      dsimp only
      by_cases heven : options.length % 2 = 0
      · rw [if_pos heven, if_neg (not_not.2 heven)]
        refine .quiet_bind (.log _ _) nofun fun _ st₂ _ hscopes' => ?_
        rw [← session_of_scopes hscopes']
        have hs₂ : call.scope < st₂.scopes.size := by rwa [hscopes', hscopes]
        exact (loadOptions_failsLeaving call controller options hs₂).then_succeeds fun _ => .pure _
      · rw [if_neg heven, if_pos heven]
        exact .keep_bind (.usage _) nofun

theorem failsLeaving_of_loads {o : Operator} (h : o.Loads) (hs : call.scope < st.scopes.size) :
    Act.FailsLeaving call.scope st (o.leftBehind args (st.session call.scope))
      (o.run call args) := by
  have hcases : o = .selectlo ∨ o = .loadfrequency ∨ o = .loadfilter ∨ o = .loadradar ∨
      o = .startdata := by simpa [Loads] using h
  rcases hcases with rfl | rfl | rfl | rfl | rfl
  · exact selectLo_failsLeaving call args
  · exact loadFrequency_failsLeaving call args
  · exact loadFilter_failsLeaving call args hs
  · exact loadRadar_failsLeaving call args hs
  · exact startData_failsLeaving call args

end Operator

/-- The operators that load never halt the script they are in, and one that fails leaves the session
of its scope as it is said to. That is the session as it was, unless the operator has loaded a
program in front of an option that it does not know, or a filter in front of channels that there are
not, which was not loaded already. Nothing else is changed. -/
theorem failed_load_leaves {o : Operator} (hload : o.Loads) (call : Call) (args : List String)
    (st : State) (hs : call.scope < st.scopes.size) :
    (∀ halt st', (o.run call args).run st ≠ .error halt st') ∧
    ∀ e st', (o.run call args).run st = .ok (.error e) st' →
      st'.session call.scope = o.leftBehind args (st.session call.scope) ∧
      (st'.session call.scope = st.session call.scope ↔ ¬o.HalfLoads args (st.session call.scope)) ∧
      Shows (st.withSession call.scope (st'.session call.scope)) st' := by
  refine ⟨fun halt st' => (Operator.alters_of_loads call args hload hs).goesOn, fun e st' h => ?_⟩
  have hshows := Operator.failsLeaving_of_loads call args hload hs h
  have hsession : st'.session call.scope = o.leftBehind args (st.session call.scope) := by
    rw [session_of_scopes hshows.scopes, st.session_withSession hs]
  rw [hsession]
  exact ⟨rfl, Operator.leftBehind_eq_self_iff args _ o, hshows⟩

def Act.failedState? : EStateM.Result Halt State (Except CommandFault α) → Option State
  | .ok (.error _) st => some st
  | _ => none

theorem Act.exists_of_failedState? {x : Act α} (h : failedState? (x.run st) = some st') :
    ∃ e, x.run st = .ok (.error e) st' := by
  cases hr : x.run st with
  | error halt st₁ =>
    rw [hr] at h
    cases h
  | ok r st₁ =>
    rw [hr] at h
    cases r with
    | ok a => cases h
    | error e =>
      cases h
      exact ⟨e, rfl⟩

/-- A filter is loaded for a channel that there is not. -/
theorem failed_loadfilter_leaves_filter :
    Operator.loadfilter.Loads ∧ ∃ e st',
      (Operator.loadfilter.run (consoleCall "loadfilter") ["x.fil", "9"]).run
        (.initial .uhf "UHF") = .ok (.error e) st' ∧
      (st'.session 0).files.filter = "x.fil" ∧
      ((State.initial .uhf "UHF").session 0).files.filter = "" := by
  have hload : Operator.loadfilter.Loads := by simp [Operator.Loads]
  have hsome :
    (Act.failedState? ((Operator.loadfilter.run (consoleCall "loadfilter") ["x.fil", "9"]).run
      (.initial .uhf "UHF"))).isSome = true := by decide +kernel
  obtain ⟨st', hst'⟩ := Option.isSome_iff_exists.1 hsome
  obtain ⟨e, h⟩ := Act.exists_of_failedState? hst'
  have hleaves := (failed_load_leaves hload (consoleCall "loadfilter") ["x.fil", "9"]
    (.initial .uhf "UHF") (by decide)).2 e st' h
  refine ⟨hload, e, st', h, ?_, rfl⟩
  rw [show st'.session 0 = _ from hleaves.1]
  decide +kernel

theorem failed_loadradar_leaves_program :
    (Act.failedState? ((Operator.loadradar.run (consoleCall "loadradar")
        ["receiver", "-f", "a.rbin", "-q", "1"]).run (.initial .uhf "UHF"))).map
      (fun st' => (st'.session 0).files.receiver) = some "a.rbin" ∧
      ((State.initial .uhf "UHF").session 0).files.receiver = "" := by
  decide +kernel

end RadarTimeline.Console
