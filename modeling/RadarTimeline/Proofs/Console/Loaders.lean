import RadarTimeline.Proofs.Console.Quiet

namespace RadarTimeline.Console

variable {α β : Type} {s : Nat} {st st₁ st' : State} {t u : SessionState}

theorem session_of_scopes (h : st₁.scopes = st.scopes) (s : Nat) :
    st₁.session s = st.session s := by
  rw [State.session, State.scope, h]
  rfl

/-- From a state on, an act leaves a session as `t`, and all it does otherwise is to show something.
If it fails, the session may be another one. -/
structure Act.Alters (s : Nat) (st : State) (t : SessionState) (x : Act α) : Prop where
  goesOn : ∀ {halt st'}, x.run st ≠ .error halt st'
  ends : ∀ {a st'}, x.run st = .ok (.ok a) st' → Shows (st.withSession s t) st'
  fails : ∀ {e st'}, x.run st = .ok (.error e) st' → ∃ t', Shows (st.withSession s t') st'

namespace Act.Alters

variable {x : Act α} {f : α → Act β}

theorem of_quiet (hx : Act.Quiet x) (hu : u = st.session s) : Act.Alters s st u x := by
  have hsame : st.withSession s u = st := by rw [hu, st.withSession_session]
  refine ⟨hx.goesOn, fun h => ?_, fun h => ⟨u, ?_⟩⟩ <;> rw [hsame] <;> exact hx.shows h

theorem bind (hx : Act.Alters s st t x)
    (hf : ∀ a st₁, x.run st = .ok (.ok a) st₁ → Act.Alters s st₁ u (f a)) :
    Act.Alters s st u (x >>= f) := by
  cases hr : x.run st with
  | error halt st₁ => exact (hx.goesOn hr).elim
  | ok r st₁ =>
    cases r with
    | error e =>
      have hbind : (x >>= f).run st = .ok (.error e) st₁ := bind_of_fault hr
      refine ⟨?_, ?_, ?_⟩ <;> intro _ _ h <;> rw [hbind] at h <;> cases h
      exact hx.fails hr
    | ok a =>
      have hbind : (x >>= f).run st = (f a).run st₁ := bind_of_ok hr
      have hrest := hf a st₁ hr
      -- the session that the rest leaves is the one that counts
      have hshows (v : SessionState) : Shows (st.withSession s v) (st₁.withSession s v) := by
        simpa using (hx.ends hr).withSession s v
      refine ⟨?_, ?_, ?_⟩ <;> intro _ _ h <;> rw [hbind] at h
      · exact hrest.goesOn h
      · exact (hshows u).trans (hrest.ends h)
      · obtain ⟨t', ht⟩ := hrest.fails h
        exact ⟨t', (hshows t').trans ht⟩

theorem quiet_bind (hx : Act.Quiet x)
    (hf : ∀ a st₁, x.run st = .ok (.ok a) st₁ → st₁.scopes = st.scopes →
      Act.Alters s st₁ u (f a)) : Act.Alters s st u (x >>= f) :=
  bind (of_quiet hx rfl) fun a st₁ h => hf a st₁ h (hx.shows h).scopes

theorem then_quiet (hx : Act.Alters s st u x) (hf : ∀ a, Act.Quiet (f a))
    (hs : s < st.scopes.size) :
    Act.Alters s st u (x >>= f) := by
  refine hx.bind fun a st₁ h => of_quiet (hf a) ?_
  rw [session_of_scopes (hx.ends h).scopes, st.session_withSession hs]

theorem throw (e : CommandFault) : Act.Alters s st u (MonadExcept.throw e : Act α) :=
  ⟨nofun, nofun, fun h => by cases h; exact ⟨st.session s, by simpa using Shows.refl st⟩⟩

theorem throw_bind (e : CommandFault) : Act.Alters s st u ((MonadExcept.throw e : Act α) >>= f) :=
  bind (t := u) (throw e) nofun

theorem ite {c : Prop} [Decidable c] {x y : Act α} (hx : c → Act.Alters s st u x)
    (hy : ¬ c → Act.Alters s st u y) : Act.Alters s st u (if c then x else y) := by
  split
  · next h => exact hx h
  · next h => exact hy h

variable {call : Call}

theorem getState_bind {f : SessionState → Act β}
    (h : Act.Alters call.scope st u (f (st.session call.scope))) :
    Act.Alters call.scope st u (Operator.getState call >>= f) :=
  ⟨h.goesOn, h.ends, h.fails⟩

theorem modifyState (g : SessionState → SessionState) (hu : u = g (st.session call.scope)) :
    Act.Alters call.scope st u (call.modifyState g) := by
  have hrun : (call.modifyState g).run st = .ok (.ok ()) (st.withSession call.scope u) := by
    rw [hu]
    exact congrArg (EStateM.Result.ok (Except.ok ())) (st.modifyScope_congr rfl)
  refine ⟨?_, ?_, ?_⟩ <;> intro _ _ h <;> rw [hrun] at h <;> cases h
  exact .refl _

theorem modifyState_bind {g : SessionState → SessionState} {f : Unit → Act β}
    (hu : u = g (st.session call.scope)) (hf : Act.Quiet (f ()))
    (hs : call.scope < st.scopes.size) :
    Act.Alters call.scope st u (call.modifyState g >>= f) :=
  (modifyState g hu).then_quiet (fun _ => hf) hs

end Act.Alters

/-- What an act gives where it starts from. -/
def Act.Gives (x : Act α) (P : α → Prop) : Prop :=
  ∀ ⦃st a st'⦄, x.run st = .ok (.ok a) st' → P a

namespace Act.Gives

variable {x : Act α} {f : α → Act β} {P : α → Prop} {Q : β → Prop}

theorem pure {a : α} (h : P a) : Act.Gives (Pure.pure a : Act α) P := by
  intro st b st' hb
  cases hb
  exact h

theorem throw (e : CommandFault) : Act.Gives (MonadExcept.throw e : Act α) P := nofun

theorem bind (hx : Act.Quiet x) (hP : Act.Gives x P) (hf : ∀ a, P a → Act.Gives (f a) Q) :
    Act.Gives (x >>= f) Q := by
  intro st b st' h
  cases hr : x.run st with
  | error halt st₁ => exact (hx.goesOn hr).elim
  | ok r st₁ =>
    cases r with
    | error e =>
      rw [bind_of_fault hr] at h
      cases h
    | ok a =>
      rw [bind_of_ok hr] at h
      exact hf a (hP hr) h

end Act.Gives

theorem readChannel_gives (digits : List Char) :
    Act.Gives (readChannel digits) fun c =>
      Channel.ofNumber? (Number.digitsValue 10 digits) = some c := by
  unfold readChannel
  split
  · next c h => exact .pure h
  · exact .throw _

theorem readChannels_gives (text : String) :
    Act.Gives (readChannels text) (· = Operator.listedChannels text) := by
  unfold readChannels Operator.listedChannels
  induction digitRuns text.toList with
  | nil => exact .pure rfl
  | cons digits rest ih =>
    rw [List.mapM_cons]
    refine .bind (readChannel_quiet digits) (readChannel_gives digits) fun c hc => ?_
    refine .bind (.mapM readChannel_quiet rest) ih fun cs hcs => .pure ?_
    rw [List.filterMap_cons, hc, hcs]

theorem choose_gives (choices : List String) (word : String) :
    Act.Gives (choose choices word) fun c => choices.filter (·.startsWith word) = [c] := by
  unfold choose
  split
  · next c h => exact .pure h
  all_goals exact .throw _

theorem channelWords_gives (args : List String) :
    Act.Gives (ChannelWords.read args) fun a => ∃ list before,
      args.reverse = list :: a.target :: before ∧ a.channels = Operator.listedChannels list := by
  unfold ChannelWords.read
  split
  · next list target before h =>
    refine .bind (readChannels_quiet list) (readChannels_gives list) fun cs hcs => .pure ?_
    exact ⟨list, before, h, hcs⟩
  · exact .throw _

namespace Operator

theorem selectedOscillator_gives (site : Site) (args : List String) :
    Act.Gives (selectedOscillator site args) fun kind => oscillatorNamed? site args =
      some kind := by
  unfold selectedOscillator
  split
  · split
    · next h => exact .pure (by rw [oscillatorNamed?, if_pos h])
    · next h => exact .pure (by rw [oscillatorNamed?, h]; rfl)
    · exact .throw _
  · next h =>
    cases site with
    | uhf => exact .pure (by rw [oscillatorNamed?]; rfl; exact h)
    | esr => exact .pure (by rw [oscillatorNamed?]; rfl; exact h)
    | _ => exact .throw _

theorem selectedOscillator_quiet (site : Site) (args : List String) :
    Act.Quiet (selectedOscillator site args) := by
  unfold selectedOscillator
  split
  · split
    · exact .pure _
    · exact .pure _
    · exact .usage _
  · split
    · exact .pure _
    · exact .pure _
    · exact .usage _

variable (call : Call) (args : List String) {st : State}

theorem selectLo_alters (hs : call.scope < st.scopes.size) :
    Act.Alters call.scope st (loadedOscillator args (st.session call.scope))
      (selectLo call args) := by
  unfold selectLo loadedOscillator
  rcases hargs : args.reverse with _ | ⟨token, _ | ⟨path, before⟩⟩
  · exact .throw _
  · exact .throw _
  · refine .getState_bind ?_
    dsimp only
    refine .ite (fun _ => .throw_bind _) fun _ => .ite (fun _ => .throw_bind _) fun _ => ?_
    cases hpath : (pathNames (st.session call.scope).site).lookup path with
    | none => exact .throw _
    | some number =>
      refine .quiet_bind (selectedOscillator_quiet _ args) fun kind st₁ h hscopes => ?_
      rw [selectedOscillator_gives _ args h]
      refine .modifyState_bind ?_ ((Act.Quiet.log _ _).bind fun _ => .done) (hscopes ▸ hs)
      rw [session_of_scopes hscopes]

theorem loadFrequency_alters (hs : call.scope < st.scopes.size) :
    Act.Alters call.scope st (loadedTables args (st.session call.scope))
      (loadFrequency call args) := by
  refine .quiet_bind (.require args 2 _) fun _ st₁ _ hscopes => ?_
  refine .quiet_bind (channelWords_quiet args) fun a st₂ h hscopes' => ?_
  obtain ⟨list, before, hargs, hchannels⟩ := channelWords_gives args h
  refine .modifyState_bind ?_ ?_ (by rwa [hscopes', hscopes])
  · rw [session_of_scopes hscopes', session_of_scopes hscopes, loadedTables, hargs, hchannels]
  · exact (getState_quiet call).bind fun _ => (Act.Quiet.log _ _).bind fun _ => .done

theorem loadFilter_alters (hs : call.scope < st.scopes.size) :
    Act.Alters call.scope st (loadedFilter args (st.session call.scope))
      (loadFilter call args) := by
  refine .quiet_bind (.require args 2 _) fun _ st₁ _ hscopes => ?_
  dsimp only
  unfold loadedFilter
  rcases hwords : (if (receiverLine? (args.headD "")).isSome then args.tail else args) with
    _ | ⟨file, _ | ⟨list, options⟩⟩
  · exact .throw _
  · exact .throw _
  · refine .modifyState_bind ?_ ?_ (by rwa [hscopes])
    · rw [session_of_scopes hscopes]
    · exact (readChannels_quiet list).bind fun _ => (Act.Quiet.log _ _).bind fun _ => .done

theorem startData_alters (hs : call.scope < st.scopes.size) :
    Act.Alters call.scope st (loadedCorrelator args (st.session call.scope))
      (startData call args) := by
  unfold startData loadedCorrelator
  dsimp only
  rcases hwords : (if ["ion", "-ion", "pla", "-pla"].contains (args.headD "")
    then args.tail else args)
    with _ | ⟨file, _ | ⟨experiment, _ | ⟨period, rest⟩⟩⟩
  · exact .throw _
  · exact .throw _
  · exact .throw _
  · dsimp only
    generalize (if ["ion", "-ion", "pla", "-pla"].contains (args.headD "") then args.headD ""
      else "ion") =
      receiver
    refine .getState_bind (.ite (fun h => .of_quiet .done ?_) fun h =>
      .ite (fun _ => .throw _) fun _ => ?_)
    · rw [if_pos (by simpa using h)]
    · rw [if_neg (by simpa using h)]
      exact .modifyState_bind rfl ((Act.Quiet.log _ _).bind fun _ => .done) hs

theorem loadOption_alters (transmitter : Bool) (controller option value : String)
    (hc : controller = "transmitter" ↔ transmitter = true) (hs : call.scope < st.scopes.size) :
    Act.Alters call.scope st (loadedPrograms transmitter [option, value] (st.session call.scope))
      (loadOption call controller option value) := by
  unfold loadOption
  split
  · next h =>
    refine .modifyState_bind ?_ (.log _ _) hs
    rw [loadedPrograms, loadedPrograms, if_neg (not_not.2 h)]
    by_cases htransmitter : transmitter = true
    · rw [if_pos htransmitter, if_pos (hc.2 htransmitter)]
    · rw [if_neg htransmitter, if_neg (mt hc.1 htransmitter)]
    all_goals simp
  · next h =>
    refine .of_quiet (.log _ _) ?_
    rw [loadedPrograms, loadedPrograms, if_pos (by rw [h]; decide)]
    simp
  · next h =>
    refine .of_quiet (.log _ _) ?_
    rw [loadedPrograms, loadedPrograms, if_pos (by rw [h]; decide)]
    simp
  · exact .throw _

theorem loadOptions_alters (transmitter : Bool) (controller : String)
    (hc : controller = "transmitter" ↔ transmitter = true) (hs : call.scope < st.scopes.size) :
    Act.Alters call.scope st (loadedPrograms transmitter args (st.session call.scope))
      (loadOptions call controller args) := by
  induction args using List.twoStepInduction generalizing st with
  | nil => exact .of_quiet (.pure ()) rfl
  | singleton option => exact .of_quiet (.pure ()) rfl
  | cons_cons option value rest ih _ =>
    have hoption := loadOption_alters call transmitter controller option value hc hs
    refine hoption.bind fun _ st₁ h => ?_
    have hscopes := (hoption.ends h).scopes
    have hs₁ : call.scope < st₁.scopes.size := by
      rw [hscopes, State.withSession, st.size_modifyScope]
      exact hs
    have hrest := ih hs₁
    rw [session_of_scopes hscopes, st.session_withSession hs] at hrest
    exact hrest

theorem chosen_transmitter_iff {which controller : String}
    (h : controllers.filter (·.startsWith which) = [controller]) :
    controller = "transmitter" ↔ "transmitter".startsWith which = true := by
  have hmem : ∀ c, c ∈ controllers.filter (·.startsWith which) ↔ c = controller := by
    simp [h]
  constructor
  · rintro rfl
    exact (List.mem_filter.1 ((hmem _).2 rfl)).2
  · intro hw
    exact ((hmem _).1 (List.mem_filter.2 ⟨by simp [controllers], hw⟩)).symm

theorem loadRadar_alters (hs : call.scope < st.scopes.size) :
    Act.Alters call.scope st
      (loadedPrograms ("transmitter".startsWith (args.headD "")) args.tail (st.session call.scope))
      (loadRadar call args) := by
  cases args with
  | nil => exact .throw _
  | cons which options =>
    refine .quiet_bind (choose_quiet _ _) fun controller st₁ h hscopes => ?_
    have hc := chosen_transmitter_iff (choose_gives _ _ h)
    refine .ite (fun _ => .throw_bind _) fun _ => ?_
    refine .quiet_bind (.log _ _) fun _ st₂ _ hscopes' => ?_
    have hall := hscopes'.trans hscopes
    rw [← session_of_scopes hall]
    have hs₂ : call.scope < st₂.scopes.size := by rwa [hall]
    exact (loadOptions_alters call options _ controller hc hs₂).then_quiet (fun _ => .done) hs₂

theorem alters_of_loads {o : Operator} (h : o.Loads) (hs : call.scope < st.scopes.size) :
    Act.Alters call.scope st (o.loaded args (st.session call.scope)) (o.run call args) := by
  have hcases : o = .selectlo ∨ o = .loadfrequency ∨ o = .loadfilter ∨ o = .loadradar ∨
      o = .startdata := by simpa [Loads] using h
  rcases hcases with rfl | rfl | rfl | rfl | rfl
  · exact selectLo_alters call args hs
  · exact loadFrequency_alters call args hs
  · exact loadFilter_alters call args hs
  · exact loadRadar_alters call args hs
  · exact startData_alters call args hs

end Operator

end RadarTimeline.Console
