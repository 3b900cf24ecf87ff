import RadarTimeline.Proofs.Console.CallLog
import Mathlib.Logic.Relation

namespace RadarTimeline.Console

variable {s base entry : Nat} {st st₁ st' : State}

theorem outermost_follows (filename : String) (c : Completion) :
    (outermost filename c).Follows s base := by
  unfold outermost
  split
  · exact .pure _
  · exact .halt _ _

theorem evaluateWithin_follows (setup : Setup) (depth : Nat) (script filename : String) :
    (evaluateWithin setup depth script filename).Follows 0 base :=
  (runNested_follows setup depth 0 base script filename 1).bind fun c =>
  outermost_follows filename c

/-- The states of a console: it begins with its root scope, and every script that it evaluates leads
it on, also one that fails. -/
inductive Reached (site : Site) (antenna : String) : State → Prop
  | fresh (o : Oscillators) : Reached site antenna (.initial site antenna o)
  | evaluated {st st' : State} (before : Reached site antenna st) (setup : Setup) (depth : Nat)
    (script filename : String) (h : (evaluateWithin setup depth script filename).LeadsTo st st') :
    Reached site antenna st'

theorem Reached.logged {site : Site} {antenna : String} (h : Reached site antenna st) :
    ∃ o, Logged 0 st.trace.toList (.initial site antenna o) st := by
  induction h with
  | fresh o =>
    refine ⟨o, .refl 0 ⟨fun id hid words child hlink => ?_, fun id hid hne => ?_⟩⟩
    · obtain rfl : id = 0 := Nat.lt_one_iff.1 hid
      cases hlink
    · exact absurd (Nat.lt_one_iff.1 hid) hne
  | @evaluated st st' _ setup depth script filename hleads ih =>
    obtain ⟨o, ih⟩ := ih
    have hw : Within 0 0 st := ⟨Nat.zero_lt_one.trans_le ih.size_le, Nat.zero_le _⟩
    obtain ⟨ran, hran⟩ :=
      (evaluateWithin_follows setup depth script filename).logged hw ih.nested hleads
    rw [hran.trace]
    exact ⟨o, ih.trans hran⟩

/-- A scope was opened by calls from another one. -/
def Below (st : State) (ancestor id : Nat) : Prop :=
  Relation.ReflTransGen (fun p child => (st.scope child).parent = some p) ancestor id

theorem Nested.below_root (h : Nested st) {id : Nat} (hid : id < st.scopes.size) :
    Below st 0 id := by
  -- the scope that opened one is earlier, and the root is the earliest
  induction id using Nat.strongRecOn with
  | ind id ih =>
    by_cases hroot : id = 0
    · rw [hroot]
      exact .refl
    · obtain ⟨p, hlt, hparent⟩ := h.parents id hid hroot
      exact (ih p hlt (hlt.trans hid)).tail hparent

theorem Trail.records (h : Trail s base st st') (hw : Within s base st) :
    st.trace.toList <+: st'.trace.toList := by
  obtain ⟨ran, hran⟩ := h.loaded hw
  exact ⟨ran, hran.trace.symm⟩

theorem Stop.records (h : Stop s base st st') (hw : Within s base st) :
    st.trace.toList <+: st'.trace.toList := by
  induction h with
  | after before => exact before.records hw
  | within before _ _ _ _ _ ih => exact (before.records hw).trans (ih (.openCall ..))
  | spoiled before words o t shown =>
    refine (before.records hw).trans ?_
    rw [State.trace_recordAll]
    simp [State.withSession, State.begin, State.withEntry]

theorem Shows.records (h : Shows st st') : st.trace.toList <+: st'.trace.toList := by
  obtain ⟨events, -, rfl⟩ := h
  exact ⟨events, (st.trace_recordAll events).symm⟩

/-- What carries out a command only adds to what was recorded. -/
theorem dispatch_records {call : Call} (hrun : call.run.Follows) (hw : Within call.scope base st)
    (hb : base ≤ call.entry) (fresh : st.Fresh call.scope call.entry) {name : String}
    {args : List String}
    {handler : Option Handler} (h : (dispatch call name args handler).run.LeadsTo st st') :
    st.trace.toList <+: st'.trace.toList := by
  by_cases hload : ∃ o, handler = some (.operator o) ∧ o.Loads
  · obtain ⟨o, rfl, ho⟩ := hload
    have halters := Operator.alters_of_loads call args ho hw.lt_size
    rcases h with ⟨r, h⟩ | ⟨halt, h⟩
    · cases r with
      | ok c => exact (halters.ends h).records
      | error e =>
        obtain ⟨t, hshows⟩ := halters.fails h
        exact hshows.records
    · exact (halters.goesOn h).elim
  · have hnot : ∀ o, handler = some (.operator o) → ¬ o.Loads := fun o h ho => hload ⟨o, h, ho⟩
    have hfollows := dispatch_follows hrun hnot hw hb fresh name args
    rcases h with ⟨r, h⟩ | ⟨halt, h⟩
    · cases r with
      | ok c => exact (hfollows.ends h).records hw
      | error e => exact (hfollows.fails h).records hw
    · exact (hfollows.halts h).records hw

theorem settle_records {name : String} {location : Script.Location}
    {r : Except CommandFault Completion}
    (h : (settle s entry name location r).LeadsTo st st') : st'.trace = st.trace := by
  cases r with
  | error fault =>
    rcases h with ⟨c, h⟩ | ⟨halt, h⟩ <;> cases h
    rfl
  | ok c =>
    obtain ⟨st₁, hrun, hst₁⟩ : ∃ st₁, settle s entry name location (.ok c) st = .ok c st₁ ∧ _ :=
      settle_ok_run st name location c
    rcases h with ⟨c', h⟩ | ⟨halt, h⟩ <;> rw [hrun] at h <;> cases h
    rcases hst₁ with rfl | ⟨result, rfl⟩ <;> rfl

/-- Once its words have been replaced, a command is recorded, and what it does comes after it. -/
theorem carryOut_records {setup : Setup} {run : Runner} (hrun : run.Follows) {c : Script.Command}
    {words : List String} (hs : s < st.scopes.size)
    (hwords : c.words.mapM (wordValue run s c) st = .ok words st₁)
    (h : (carryOut setup run s c).LeadsTo st st') :
    ∃ handler, st.trace.toList <+: st₁.trace.toList ∧
      st₁.trace.toList ++ [.command s words handler] <+: st'.trace.toList := by
  have hw : Within s 0 st := ⟨hs, Nat.zero_le _⟩
  have hinside : (c.words.mapM (wordValue run s c)).Follows s 0 :=
    .mapM (wordValue_follows hrun c) c.words
  have htrail := (hinside st hw).ends hwords
  have hw₁ := htrail.within hw
  rw [Script.Command.words, List.mapM_cons] at hwords
  obtain ⟨name, st₀, hname, hwords⟩ := Run.exists_of_bind_ok hwords
  obtain ⟨args, st₂, hargs, hwords⟩ := Run.exists_of_bind_ok hwords
  cases hwords
  obtain ⟨handler, hperform⟩ := perform_run setup run c name args hw₁.lt_size
  have hcarry : carryOut setup run s c st = _ :=
    (Run.bind_of_ok hname).trans ((Run.bind_of_ok hargs).trans hperform)
  refine ⟨handler, htrail.records hw, ?_⟩
  have hbegun : Within s 0 (st₁.begin s (name :: args) handler) :=
    ((Isolated.withEntry hw₁.lt_size hw₁.le_log (name :: args)).trans (.record _)).within hw₁
  have hdispatch {st₂ : State} (h : (dispatch ⟨setup, run, s, c, (st₁.scope s).log.size⟩ name args
      handler).run.LeadsTo (st₁.begin s (name :: args) handler) st₂) :
      st₁.trace.toList ++ [.command s (name :: args) handler] <+: st₂.trace.toList := by
    have hrecords := dispatch_records hrun hbegun (Nat.zero_le _) (.withEntry hw₁.lt_size) h
    simpa [State.begin, State.withEntry] using hrecords
  rw [Run.LeadsTo, hcarry] at h
  cases hr : (dispatch ⟨setup, run, s, c, (st₁.scope s).log.size⟩ name args handler).run
      (st₁.begin s (name :: args) handler) with
  | ok r st₂ =>
    rw [Run.bind_of_ok hr] at h
    rw [settle_records h]
    exact hdispatch (.inl ⟨r, hr⟩)
  | error halt st₂ =>
    rw [Run.bind_of_error hr] at h
    rcases h with ⟨c', h⟩ | ⟨halt', h⟩ <;> cases h
    exact hdispatch (.inr ⟨halt, hr⟩)

/-- After all that a console has evaluated, its root scope lists the commands and jumps of some
names in the order in which they ran: those of its calls where they were made, or else only its own.
All of them were in the root or in scopes that calls from it have opened. What a command has between
brackets ran before it, and what it calls after it. -/
theorem invocationsOf_root (site : Site) (antenna : String) :
    (∀ st, Reached site antenna st →
      (∀ names, st.invocationsOf 0 names true = noted (fun _ => true) names st.trace.toList ∧
        st.invocationsOf 0 names false = noted (· = 0) names st.trace.toList) ∧
      ∀ e ∈ st.trace.toList, ∀ id words, e.invocation? = some (id, words) → Below st 0 id) ∧
    ∀ setup depth s c words st st₁ st', s < st.scopes.size →
      c.words.mapM (wordValue (runNested setup depth) s c) st = .ok words st₁ →
      (carryOut setup (runNested setup depth) s c).LeadsTo st st' →
      ∃ handler, st.trace.toList <+: st₁.trace.toList ∧
        st₁.trace.toList ++ [.command s words handler] <+: st'.trace.toList := by
  refine ⟨fun st hreached => ?_, fun setup depth s c words st st₁ st' hs hwords h =>
    carryOut_records (runNested_follows setup depth) hs hwords h⟩
  obtain ⟨o, hlogged⟩ := hreached.logged
  have hempty (names : List String) (depth : Nat) :
      (State.initial site antenna o).callsIn names depth 0 = [] := by
    cases depth <;> rfl
  refine ⟨fun names => ⟨?_, ?_⟩, fun e he id words hid => hlogged.nested.below_root ?_⟩
  · have hall := hlogged.all names st.scopes.size (Nat.le_add_left ..)
    rwa [hempty, List.nil_append] at hall
  · have hown := hlogged.own names
    rwa [hempty, List.nil_append] at hown
  · rcases hlogged.scopes e he id words hid with rfl | ⟨-, hlt⟩
    · exact Nat.zero_lt_one.trans_le hlogged.size_le
    · exact hlt

/-- Calls that are nested, and a command that is not known. -/
def nestedFailure : String := nestedLoads ++ "\nmissing"

def bracketed : Script.Command :=
  ⟨consoleName, ⟨.bare, "puts", 1, 1, 4⟩, [⟨.bracketed, "list a", 1, 6, 13⟩]⟩

theorem nestedFailure_invocations : ∃ halt st,
    evaluateWithin ⟨.empty, {}, "eros", "tcl"⟩ 12 nestedFailure consoleName
      (State.initial .uhf "32m") = .error halt st ∧
    st.invocationsOf 0 ["tune", "loadfilter", "startdata"] true =
      noted (fun _ => true) ["tune", "loadfilter", "startdata"] st.trace.toList ∧
    ∃ words st₁ c st' handler,
      bracketed.words.mapM (wordValue (runNested ⟨.empty, {}, "eros", "tcl"⟩ 4) 0 bracketed)
        (State.initial .uhf "32m") = .ok words st₁ ∧
      carryOut ⟨.empty, {}, "eros", "tcl"⟩ (runNested ⟨.empty, {}, "eros", "tcl"⟩ 4) 0 bracketed
        (State.initial .uhf "32m") = .ok c st' ∧
      st₁.trace.toList ++ [.command 0 words handler] <+: st'.trace.toList := by
  have hfails :
    Run.completes (evaluateWithin ⟨.empty, {}, "eros", "tcl"⟩ 12 nestedFailure consoleName
      (State.initial .uhf "32m")) = false := by decide +kernel
  have hinside : Run.completes (bracketed.words.mapM
      (wordValue (runNested ⟨.empty, {}, "eros", "tcl"⟩ 4) 0 bracketed)
        (State.initial .uhf "32m")) =
      true := by decide +kernel
  have hdone : Run.completes (carryOut ⟨.empty, {}, "eros", "tcl"⟩
      (runNested ⟨.empty, {}, "eros", "tcl"⟩ 4) 0 bracketed (State.initial .uhf "32m")) = true := by
    decide +kernel
  obtain ⟨halt, st, h⟩ := Run.exists_error hfails
  obtain ⟨words, st₁, hwords⟩ := Run.exists_ok hinside
  obtain ⟨c, st', hcarry⟩ := Run.exists_ok hdone
  have hroot := invocationsOf_root .uhf "32m"
  have hreached : Reached .uhf "32m" st := .evaluated (.fresh _) _ _ _ _ (.inr ⟨halt, h⟩)
  have hlist := (hroot.1 st hreached).1 ["tune", "loadfilter", "startdata"]
  obtain ⟨handler, -, hafter⟩ := hroot.2 _ _ _ _ _ _ _ st' (by decide) hwords (.inl ⟨c, hcarry⟩)
  exact ⟨halt, st, h, hlist.1, words, st₁, c, st', handler, hwords, hcarry, hafter⟩

end RadarTimeline.Console
