import RadarTimeline.Proofs.Console.Interpreter

namespace RadarTimeline

namespace SessionState

theorem holdings_merge {caller call : SessionState} (hsite : call.site = caller.site)
    (hantenna : call.antenna = caller.antenna) : (caller.merge call).holdings = call.holdings := by
  rw [holdings, holdings, merge, ← hsite, ← hantenna]

end SessionState

namespace Console

variable {s base : Nat} {st st' : State}

theorem foldl_load_place (ran : List Event) (t : SessionState) :
    (ran.foldl Event.load t).site = t.site ∧ (ran.foldl Event.load t).antenna = t.antenna := by
  induction ran generalizing t with
  | nil => exact ⟨rfl, rfl⟩
  | cons e rest ih =>
    exact ⟨(ih (e.load t)).1.trans (e.load_place t).1, (ih (e.load t)).2.trans (e.load_place t).2⟩

theorem foldl_load_holdings (ran : List Event) (t : SessionState) :
    ran.foldl Event.load t.holdings = (ran.foldl Event.load t).holdings := by
  induction ran generalizing t with
  | nil => rfl
  | cons e rest ih => rw [List.foldl_cons, List.foldl_cons, e.load_holdings, ih]

/-- Between two states the events `ran` were recorded, and a scope has loaded what they say. -/
structure Loaded (s : Nat) (ran : List Event) (st st' : State) : Prop where
  trace : st'.trace.toList = st.trace.toList ++ ran
  holdings : (st'.session s).holdings = (ran.foldl Event.load (st.session s)).holdings

namespace Loaded

variable {st₁ : State} {ran more : List Event}

theorem refl (s : Nat) (st : State) : Loaded s [] st st := ⟨by simp, rfl⟩

theorem trans (h : Loaded s ran st st₁) (h' : Loaded s more st₁ st') :
    Loaded s (ran ++ more) st st' := by
  refine ⟨by rw [h'.trace, h.trace, List.append_assoc], ?_⟩
  rw [h'.holdings, ← foldl_load_holdings, h.holdings, foldl_load_holdings, List.foldl_append]

theorem of_same (htrace : st'.trace = st.trace)
    (h : (st'.session s).holdings = (st.session s).holdings) : Loaded s [] st st' :=
  ⟨by rw [htrace, List.append_nil], h⟩

end Loaded

theorem session_modifyScope (hs : s < st.scopes.size) {f : Scope → Scope}
    (h : (f (st.scope s)).state = (st.scope s).state) :
    (st.modifyScope s f).session s = st.session s := by
  rw [State.session, st.scope_modifyScope f hs, h]
  rfl

/-- What happens in a scope loads what it records. -/
theorem Move.loaded (h : Move s base st st') (hw : Within s base st) :
    ∃ ran, Loaded s ran st st' := by
  cases h with
  | @shown e he =>
    refine ⟨[e], by simp, ?_⟩
    cases e with
    | printed | logged => rfl
    | command | jump => exact he.elim
  | assigned => exact ⟨[], .of_same rfl (by rw [session_modifyScope hw.lt_size rfl])⟩
  | defined => exact ⟨[], .of_same rfl (by rw [session_modifyScope hw.lt_size rfl])⟩
  | supplied args =>
    refine ⟨[], .of_same rfl ?_⟩
    rw [st.session_withSession hw.lt_size]
    rfl
  | ran words handler =>
    have hsize : s < (st.begin s words handler).scopes.size := by
      simpa [State.begin, State.withEntry] using hw.lt_size
    refine ⟨[.command s words handler], ?_, ?_⟩
    · simp [State.withSession, State.begin, State.withEntry]
    · rw [State.session_withSession _ hsize]
      rfl
  | jumped words =>
    refine ⟨[.jump s words], by simp [State.withEntry], ?_⟩
    exact congrArg SessionState.holdings (session_modifyScope hw.lt_size rfl)
  | settled =>
    exact ⟨[], .of_same rfl (by rw [State.withEntryChanged, session_modifyScope hw.lt_size rfl])⟩

/-- A call starts from what its caller has loaded, and the caller ends with what the call has. -/
theorem Loaded.of_call {entry : Nat} {name : String} {bindings : List (String × String)}
    {st₁ : State} {ran : List Event} (hw : Within s base st)
    (body : Trail st.scopes.size 0 (st.openCall s entry name bindings) st₁)
    (h : Loaded st.scopes.size ran (st.openCall s entry name bindings) st₁) :
    Loaded s ran st (st₁.closeCall s st.scopes.size) := by
  have hopen : (st.openCall s entry name bindings).session st.scopes.size = st.session s := by
    rw [State.session, st.scope_openCall_child entry name bindings hw.lt_size]
    rfl
  have hchild := h.holdings
  rw [hopen] at hchild
  -- the caller is still as it was when it made the call
  have hisolated := body.isolated (.openCall st s entry name bindings)
  have hcaller : st₁.session s = st.session s := by
    rw [State.session, hisolated.others s (by simpa using Nat.lt_succ_of_lt hw.lt_size)
      (Nat.ne_of_lt hw.lt_size), st.scope_openCall entry name bindings hw.lt_size]
    rfl
  have hplace := foldl_load_place ran (st.session s)
  have hsite : (st₁.session st.scopes.size).site = (st.session s).site :=
    (congrArg SessionState.site hchild).trans hplace.1
  have hantenna : (st₁.session st.scopes.size).antenna = (st.session s).antenna :=
    (congrArg SessionState.antenna hchild).trans hplace.2
  have hsize : s < st₁.scopes.size :=
    hw.lt_size.trans_le ((Nat.le_succ _).trans (by simpa using hisolated.size_le))
  refine ⟨h.trace, ?_⟩
  rw [State.closeCall, st₁.session_withSession hsize, hcaller,
    SessionState.holdings_merge hsite hantenna, hchild]

theorem Trail.loaded (h : Trail s base st st') (hw : Within s base st) :
    ∃ ran, Loaded s ran st st' := by
  induction h with
  | nil s base st => exact ⟨[], .refl s st⟩
  | move first _ ih =>
    obtain ⟨ran, hran⟩ := first.loaded hw
    obtain ⟨more, hmore⟩ := ih (first.trail.within hw)
    exact ⟨ran ++ more, hran.trans hmore⟩
  | @call s base entry st st₁ st' hb fresh name bindings body _ ihbody ihrest =>
    obtain ⟨ran, hran⟩ := ihbody (.openCall st s entry name bindings)
    have hclose : Trail s base st (st₁.closeCall s st.scopes.size) :=
      .call hb fresh name bindings body (.nil ..)
    obtain ⟨more, hmore⟩ := ihrest (hclose.within hw)
    exact ⟨ran ++ more, (Loaded.of_call hw body hran).trans hmore⟩

/-- The scope of a run and those that were opened in it are where the run began. -/
def Stays (s : Nat) (st st' : State) : Prop :=
  ∀ id < st'.scopes.size, id = s ∨ st.scopes.size ≤ id →
    (st'.session id).site = (st.session s).site ∧ (st'.session id).antenna = (st.session s).antenna

namespace Stays

variable {st₁ : State}

theorem trans (h : Stays s st st₁) (h' : Stays s st₁ st') (hs : s < st₁.scopes.size)
    (hisolated : Isolated s base st₁ st') : Stays s st st' := by
  have hown := h s hs (.inl rfl)
  intro id hid hor
  by_cases hold : id = s ∨ st₁.scopes.size ≤ id
  · have hlate := h' id hid hold
    exact ⟨hlate.1.trans hown.1, hlate.2.trans hown.2⟩
  · -- a scope that was opened before is left alone
    push Not at hold
    have hscope : st'.session id = st₁.session id :=
      congrArg Scope.state (hisolated.others id hold.2 hold.1)
    rw [hscope]
    exact h id hold.2 hor

theorem of_move (h : Move s base st st') (hw : Within s base st) : Stays s st st' := by
  obtain ⟨ran, hran⟩ := h.loaded hw
  have hplace := foldl_load_place ran (st.session s)
  have hsize : st'.scopes.size = st.scopes.size := by
    cases h <;> simp [State.withSession, State.begin, State.withEntry, State.withEntryChanged]
  rintro id hid (rfl | hle)
  · exact ⟨(congrArg SessionState.site hran.holdings).trans hplace.1,
      (congrArg SessionState.antenna hran.holdings).trans hplace.2⟩
  · omega

theorem of_call {entry : Nat} {name : String} {bindings : List (String × String)}
    (hw : Within s base st) (body : Trail st.scopes.size 0 (st.openCall s entry name bindings) st₁)
    (h : Stays st.scopes.size (st.openCall s entry name bindings) st₁) :
    Stays s st (st₁.closeCall s st.scopes.size) := by
  obtain ⟨ran, hran⟩ := body.loaded (.openCall st s entry name bindings)
  have hclosed := Loaded.of_call hw body hran
  have hplace := foldl_load_place ran (st.session s)
  have hopen : (st.openCall s entry name bindings).session st.scopes.size = st.session s := by
    rw [State.session, st.scope_openCall_child entry name bindings hw.lt_size]
    rfl
  intro id hid hor
  by_cases hown : id = s
  · rw [hown]
    exact ⟨(congrArg SessionState.site hclosed.holdings).trans hplace.1,
      (congrArg SessionState.antenna hclosed.holdings).trans hplace.2⟩
  · have hlate := h id (by simpa [State.closeCall, State.withSession] using hid) (by
      have := hor.resolve_left hown
      rw [State.size_openCall]
      omega)
    have hscope : (st₁.closeCall s st.scopes.size).session id = st₁.session id :=
      congrArg Scope.state (st₁.scope_modifyScope_ne _ hown)
    rwa [hscope, ← hopen]

end Stays

theorem Trail.stays (h : Trail s base st st') (hw : Within s base st) : Stays s st st' := by
  induction h with
  | nil s base st =>
    rintro id hid (rfl | hle)
    · exact ⟨rfl, rfl⟩
    · omega
  | move first rest ih =>
    have hw₁ := first.trail.within hw
    exact (Stays.of_move first hw).trans (ih hw₁) hw₁.lt_size (rest.isolated hw₁)
  | @call s base entry st st₁ st' hb fresh name bindings body rest ihbody ihrest =>
    have hclose : Trail s base st (st₁.closeCall s st.scopes.size) :=
      .call hb fresh name bindings body (.nil ..)
    have hw₁ := hclose.within hw
    have hcall := Stays.of_call hw body (ihbody (.openCall st s entry name bindings))
    exact hcall.trans (ihrest hw₁) hw₁.lt_size (rest.isolated hw₁)

/-- The value of a script as `evaluate` gives it, with scripts nested to a depth. -/
def evaluateWithin (setup : Setup) (depth : Nat) (script filename : String) : Run String := do
  outermost filename (← runNested setup depth 0 script filename 1)

theorem evaluate_eq_evaluateWithin (setup : Setup) (script filename : String) :
    evaluate setup script filename = evaluateWithin setup depthLimit script filename := rfl

/-- A script that is evaluated without fault leaves its root scope with what one single state would
have loaded: the state it began with, changed by all commands that load in the order in which they
ran, however deep in calls, jumps, loops, brackets or files. The radar stays where it is. -/
theorem evaluate_loads_in_order (setup : Setup) (depth : Nat) (script filename value : String)
    (st st' : State) (hroot : 0 < st.scopes.size)
    (h : evaluateWithin setup depth script filename st = .ok value st') :
    ∃ ran : List Event, st'.trace.toList = st.trace.toList ++ ran ∧
      st'.root.state.oscillators = (ran.foldl Event.load st.root.state).oscillators ∧
      st'.root.state.files = (ran.foldl Event.load st.root.state).files ∧
      st'.root.state.startTimes = (ran.foldl Event.load st.root.state).startTimes ∧
      ∀ id < st'.scopes.size, id = 0 ∨ st.scopes.size ≤ id →
        (st'.scope id).state.site = st.root.state.site ∧
          (st'.scope id).state.antenna = st.root.state.antenna := by
  have hw : Within 0 0 st := ⟨hroot, Nat.zero_le _⟩
  have hfollows : (evaluateWithin setup depth script filename).Follows 0 0 := by
    refine (runNested_follows setup depth 0 0 script filename 1).bind fun c => ?_
    unfold outermost
    split
    · exact .pure _
    · exact .halt _ _
  have htrail := (hfollows st hw).ends h
  obtain ⟨ran, hran⟩ := htrail.loaded hw
  exact ⟨ran, hran.trace, (congrArg SessionState.oscillators hran.holdings :),
    (congrArg SessionState.files hran.holdings :),
    (congrArg SessionState.startTimes hran.holdings :),
    htrail.stays hw⟩

def nestedLoads : String := String.intercalate "\n"
  ["block tune \x7bfile\x7d \x7bloadfilter $file 1\x7d",
   "proc all \x7b\x7d \x7bset x [callblock tune first.fil]; startdata a.cor 1 5\x7d",
   "all"]

theorem nestedLoads_in_order : ∃ value st' ran,
    evaluateWithin ⟨.empty, {}, "eros", "tcl"⟩ 12 nestedLoads consoleName
      (State.initial .uhf "32m") = .ok value st' ∧
    st'.trace.toList = (State.initial .uhf "32m").trace.toList ++ ran ∧
    st'.root.state.files = (ran.foldl Event.load (State.initial .uhf "32m").root.state).files := by
  have hdone : Run.completes (evaluateWithin ⟨.empty, {}, "eros", "tcl"⟩ 12 nestedLoads consoleName
      (State.initial .uhf "32m")) = true := by decide +kernel
  obtain ⟨value, st', h⟩ := Run.exists_ok hdone
  obtain ⟨ran, htrace, -, hfiles, -⟩ := evaluate_loads_in_order _ _ _ _ _ _ st' (by decide) h
  exact ⟨value, st', ran, h, htrace, hfiles⟩

end Console

end RadarTimeline
