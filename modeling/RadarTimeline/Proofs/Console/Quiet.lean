import RadarTimeline.Console.Operators
import RadarTimeline.Proofs.Console.Follows

namespace RadarTimeline.Console

variable {α β : Type} {s base : Nat} {st st₁ st' : State} {t u : SessionState}

/-- Between two states something was shown, and nothing else was done. -/
def Shows (st st' : State) : Prop := ∃ events : List Event, (∀ e ∈ events, e.Shown) ∧
    st' = st.recordAll events

namespace Shows

theorem refl (st : State) : Shows st st := ⟨[], nofun, rfl⟩

theorem trans (h : Shows st st₁) (h' : Shows st₁ st') : Shows st st' := by
  obtain ⟨first, hfirst, rfl⟩ := h
  obtain ⟨second, hsecond, rfl⟩ := h'
  refine ⟨first ++ second, fun e he => ?_, (st.recordAll_append first second).symm⟩
  exact (List.mem_append.1 he).elim (hfirst e) (hsecond e)

theorem trail (h : Shows st st') : Trail s base st st' := by
  obtain ⟨events, hevents, rfl⟩ := h
  exact .shown hevents st

theorem scopes (h : Shows st st') : st'.scopes = st.scopes := by
  obtain ⟨events, -, rfl⟩ := h
  exact st.scopes_recordAll events

theorem withSession (h : Shows st st') (s : Nat) (t : SessionState) :
    Shows (st.withSession s t) (st'.withSession s t) := by
  obtain ⟨events, hevents, rfl⟩ := h
  exact ⟨events, hevents, st.modifyScope_recordAll _ s events⟩

end Shows

/-- An act that only shows something. -/
structure Act.Quiet (x : Act α) : Prop where
  goesOn : ∀ {st halt st'}, x.run st ≠ .error halt st'
  shows : ∀ {st r st'}, x.run st = .ok r st' → Shows st st'

namespace Act.Quiet

variable {x : Act α} {f : α → Act β}

theorem of_run (h : ∀ st, ∃ r st', x.run st = .ok r st' ∧ Shows st st') : Act.Quiet x := by
  constructor <;> intro st _ _ hx <;> obtain ⟨r, st₁, hr, hshows⟩ :=
    h st <;> rw [hr] at hx <;> cases hx
  exact hshows

theorem pure (a : α) : Act.Quiet (Pure.pure a : Act α) :=
  .of_run fun st => ⟨.ok a, st, rfl, .refl st⟩

theorem throw (e : CommandFault) : Act.Quiet (MonadExcept.throw e : Act α) :=
  .of_run fun st => ⟨.error e, st, rfl, .refl st⟩

theorem ofExcept (r : Except CommandFault α) : Act.Quiet (liftM r : Act α) :=
  .of_run fun st => ⟨r, st, rfl, .refl st⟩

theorem bind (hx : Act.Quiet x) (hf : ∀ a, Act.Quiet (f a)) : Act.Quiet (x >>= f) := by
  refine .of_run fun st => ?_
  cases hr : x.run st with
  | error halt st₁ => exact (hx.goesOn hr).elim
  | ok r st₁ =>
    cases r with
    | error e => exact ⟨.error e, st₁, bind_of_fault hr, hx.shows hr⟩
    | ok a =>
      cases hr' : (f a).run st₁ with
      | error halt st' => exact ((hf a).goesOn hr').elim
      | ok r' st' =>
        exact ⟨r', st', (bind_of_ok hr).trans hr', (hx.shows hr).trans ((hf a).shows hr')⟩

theorem ite {c : Prop} [Decidable c] {y : Act α} (hx : Act.Quiet x) (hy : Act.Quiet y) :
    Act.Quiet (if c then x else y) := by
  split
  · exact hx
  · exact hy

theorem guarded {c : Prop} [Decidable c] {x : Act Unit} {next : Unit → Act β} (hx : Act.Quiet x)
    (hnext : Act.Quiet (next ())) : Act.Quiet (if c then x >>= next else next ()) :=
  .ite (hx.bind fun _ => hnext) hnext

theorem follows (hx : Act.Quiet x) : Act.Follows s base x := fun _ _ =>
  ⟨fun h => (hx.shows h).trail, fun h => .after (hx.shows h).trail, fun h => (hx.goesOn h).elim⟩

variable {call : Call}

theorem getScope : Act.Quiet call.getScope := .of_run fun st => ⟨_, st, rfl, .refl st⟩

theorem log (level : Log.Level) (message : String) : Act.Quiet (call.log level message) :=
  .of_run fun st => ⟨.ok (), _, rfl, [_], by simp [Event.Shown], rfl⟩

theorem logLanguage (level : Log.Level) (message : String) :
    Act.Quiet (call.logLanguage level message) :=
  .of_run fun st => ⟨.ok (), _, rfl, [_], by simp [Event.Shown], rfl⟩

theorem printed (text : String) : Act.Quiet (Run.record (.printed text) : Act Unit) :=
  .of_run fun st => ⟨.ok (), _, rfl, [_], by simp [Event.Shown], rfl⟩

theorem usage (fault : UsageFault) : Act.Quiet (Call.usage fault : Act α) := .throw _

theorem refuse (text : String) : Act.Quiet (Call.refuse text : Act α) := .throw _

theorem give (value : String) : Act.Quiet (Call.give value) := .pure _

theorem done : Act.Quiet Call.done := .pure _

theorem listElements (text : String) : Act.Quiet (Call.listElements text) := .ofExcept _

theorem require (args : List String) (count : Nat) (text : String) :
    Act.Quiet (Call.require args count text) := by
  unfold Call.require
  split
  · exact .refuse text
  · exact .pure ()

theorem mapM {γ : Type} {g : γ → Act α} (h : ∀ c, Act.Quiet (g c)) (cs : List γ) :
    Act.Quiet (cs.mapM g) := by
  induction cs with
  | nil => exact .pure _
  | cons c rest ih =>
    rw [List.mapM_cons]
    exact (h c).bind fun _ => ih.bind fun _ => .pure _

end Act.Quiet

section

variable (call : Call) (args : List String)

theorem choose_quiet (choices : List String) (word : String) : Act.Quiet (choose choices word) := by
  unfold choose
  split
  · exact .pure _
  all_goals exact .usage _

theorem readChannel_quiet (digits : List Char) : Act.Quiet (readChannel digits) := by
  unfold readChannel
  split
  · exact .pure _
  · exact .usage _

theorem readChannels_quiet (text : String) : Act.Quiet (readChannels text) :=
  .mapM readChannel_quiet _

theorem channelWords_quiet : Act.Quiet (ChannelWords.read args) := by
  unfold ChannelWords.read
  split
  · exact (readChannels_quiet _).bind fun _ => .pure _
  · exact .usage _

theorem readInteger_quiet (text : String) : Act.Quiet (readInteger text) := by
  unfold readInteger
  split
  · exact .pure _
  · exact .usage _

theorem readIndex_quiet (text : String) (length : Nat) : Act.Quiet (readIndex text length) := by
  unfold readIndex
  dsimp only
  split
  · exact .pure _
  · exact .pure _
  · exact .usage _

end

namespace Operator

variable (call : Call) (args : List String)

theorem getState_quiet : Act.Quiet (getState call) := Act.Quiet.getScope.bind fun _ => .pure _

theorem gotoBlock_quiet : Act.Quiet (gotoBlock call args) :=
  (Act.Quiet.require args 1 _).bind fun _ => (Act.Quiet.log _ _).bind fun _ => .pure _

theorem armRadar_quiet : Act.Quiet (armRadar call args) :=
  (Act.Quiet.require args 1 _).bind fun _ => (Act.Quiet.log _ _).bind fun _ => .done

theorem startRadar_quiet : Act.Quiet (startRadar call args) := by
  unfold startRadar
  split
  · exact .refuse _
  · exact (Act.Quiet.log _ _).bind fun _ => .done

theorem stopRadar_quiet : Act.Quiet (stopRadar call args) := by
  unfold stopRadar
  dsimp only
  refine .ite ((Act.Quiet.log _ _).bind fun _ => .done) ?_
  exact (choose_quiet _ _).bind fun _ => (Act.Quiet.log _ _).bind fun _ => .done

theorem testSite_quiet : Act.Quiet (testSite call args) :=
  (getState_quiet call).bind fun _ => .give _

theorem getStartTime_quiet : Act.Quiet (getStartTime call args) := by
  unfold getStartTime
  split
  · exact .refuse _
  · refine (getState_quiet call).bind fun _ => ?_
    dsimp only
    split
    · exact .give _
    · exact .usage _

theorem readFrequencyFile_quiet : Act.Quiet (readFrequencyFile call args) := by
  unfold readFrequencyFile
  split
  · refine .guarded (Act.Quiet.log _ _) ?_
    split
    · exact (Act.Quiet.log _ _).bind fun _ => .done
    · split
      · exact .give _
      · exact .usage _
  · exact .refuse _

theorem setFrequency_quiet : Act.Quiet (setFrequency call args) := by
  refine (Act.Quiet.require args 2 _).bind fun _ => ?_
  exact (channelWords_quiet _).bind fun _ => (getState_quiet call).bind fun _ =>
    (Act.Quiet.log _ _).bind fun _ => .done

theorem setPanelPath_quiet : Act.Quiet (setPanelPath call args) := by
  refine (getState_quiet call).bind fun _ => .ite ?_ .done
  split
  · exact (Act.Quiet.log _ _).bind fun _ => .done
  · split <;> exact (Act.Quiet.log _ _).bind fun _ => .done

theorem disableRecording_quiet : Act.Quiet (disableRecording call args) := by
  refine (getState_quiet call).bind fun _ => ?_
  dsimp only
  refine .ite ((Act.Quiet.log _ _).bind fun _ => .done) ?_
  split
  iterate 3 exact (Act.Quiet.log _ _).bind fun _ => .done
  exact (Act.Quiet.usage _).bind fun _ => .done

theorem writeExperimentFile_quiet : Act.Quiet (writeExperimentFile call args) := by
  unfold writeExperimentFile
  split
  · exact .refuse _
  · exact (Act.Quiet.listElements _).bind fun _ => (Act.Quiet.log _ _).bind fun _ => .done

theorem userParameter_quiet : Act.Quiet (userParameter call args) := by
  refine (Act.Quiet.require args 1 _).bind fun _ => .guarded (.usage _) ?_
  split
  · exact (Act.Quiet.log _ _).bind fun _ => .done
  · exact (Act.Quiet.log _ _).bind fun _ => .give _
  · exact (Act.Quiet.log _ _).bind fun _ => .done
  · exact (Act.Quiet.log _ _).bind fun _ => .done
  · exact .done

theorem writeTimestamp_quiet : Act.Quiet (writeTimestamp args) := by
  unfold writeTimestamp
  split
  · exact .refuse _
  · exact .ite (.usage _) (.give _)

theorem tell_quiet (level : Log.Level) (message : String) : Act.Quiet (tell call level message) :=
  (Act.Quiet.log _ _).bind fun _ => .done

end Operator

end RadarTimeline.Console
