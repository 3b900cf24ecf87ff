import RadarTimeline.Proofs.Console.Handlers
import RadarTimeline.Proofs.Console.Interpreter

namespace RadarTimeline.Console

def wordPieces (w : Script.Word) : List Piece :=
  match w.kind with
  | .braced => []
  | .bracketed => [.command w.text]
  | .bare | .quoted => Piece.ofChars w.text.toList

/-- How a word fails: at one of its parts, once those before it are replaced. -/
inductive WordFails (run : Runner) (failing : Failing) (s : Nat) (c : Script.Command)
    (w : Script.Word) (st : State) : ScriptError → State → Prop
  | part {before after : List Piece} {p : Piece} {values : List String} {st₁ st' : State}
    {e : ScriptError} (hw : wordPieces w = before ++ p :: after)
    (hbefore : before.mapM (·.value run s (c.wordLocation w)) st = .ok values st₁)
    (h : p.Fails run failing s (c.wordLocation w) st₁ e st') : WordFails run failing s c w st e st'

/-- What the handler of a command does. The words of the command have been logged and recorded. -/
def handled (setup : Setup) (run : Runner) (s : Nat) (c : Script.Command) (name : String)
    (args : List String) (st : State) :
    EStateM.Result Halt State (Except CommandFault Completion) :=
  let logged := (st.withEntry s (name :: args)).scope s
  (dispatch ⟨setup, run, s, c, logged.log.size - 1⟩ name args (logged.handler? name)).run
    (st.begin s (name :: args) (logged.handler? name))

/-- What a run fails with that a handler is in: there is no handler, a script that it runs fails, or
a part of a text does that it replaces. -/
inductive HandlerFails (run : Runner) (failing : Failing) (s : Nat) (c : Script.Command)
    (name : String) :
    ScriptError → State → Prop
  | unknown {st : State} (h : (st.scope s).handler? name = none) :
    HandlerFails run failing s c name ⟨.unknownCommand name, c.wordLocation c.head⟩ st
  | script {id : Nat} {script filename : String} {line : Position} {st st' : State}
    {e : ScriptError}
    (h : failing id script filename line st e st') : HandlerFails run failing s c name e st'
  | part {p : Piece} {st st' : State} {e : ScriptError}
    (h : p.Fails run failing s c.location st e st') :
    HandlerFails run failing s c name e st'

/-- How a command fails. A fault that its handler raises is placed at the command. -/
inductive CommandFails (setup : Setup) (run : Runner) (failing : Failing) (s : Nat)
    (c : Script.Command) (st : State) : ScriptError → State → Prop
  | word {before after : List Script.Word} {w : Script.Word} {values : List String}
    {st₁ st' : State} {e : ScriptError} (hc : c.words = before ++ w :: after)
    (hbefore : before.mapM (wordValue run s c) st = .ok values st₁)
    (h : WordFails run failing s c w st₁ e st') : CommandFails setup run failing s c st e st'
  | raised {name : String} {args : List String} {fault : CommandFault} {st₁ st' : State}
    (hwords : c.words.mapM (wordValue run s c) st = .ok (name :: args) st₁)
    (h : handled setup run s c name args st₁ = .ok (.error fault) st') :
    CommandFails setup run failing s c st ⟨.command name fault, c.location⟩ st'
  | halted {name : String} {args : List String} {e : ScriptError} {st₁ st' : State}
    (hwords : c.words.mapM (wordValue run s c) st = .ok (name :: args) st₁)
    (h : handled setup run s c name args st₁ = .error (.fault e) st')
    (cause : HandlerFails run failing s c name e st') : CommandFails setup run failing s c st e st'

/-- How a script fails: it cannot be read, or one of its commands fails once those before it have
completed normally. -/
inductive ScriptFails (setup : Setup) (run : Runner) (failing : Failing) (s : Nat)
    (script filename : String) (line : Position) (st : State) : ScriptError → State → Prop
  | unreadable {e : Script.ReadError} (h : Script.readScript script filename line = .error e) :
    ScriptFails setup run failing s script filename line st ⟨.syntaxFault e.fault, e.location⟩ st
  | command {before after : List Script.Command} {c : Script.Command} {value : String}
    {st₁ st' : State}
    {e : ScriptError} (hread : Script.readScript script filename line = .ok (before ++ c :: after))
    (hbefore : carryOutAll (carryOut setup run s) (.normal "") before st = .ok (.normal value) st₁)
    (h : CommandFails setup run failing s c st₁ e st') :
    ScriptFails setup run failing s script filename line st e st'

def NestedFails (setup : Setup) : Nat → Failing
  | 0 => fun _ _ _ _ _ _ _ => False
  | depth + 1 => ScriptFails setup (runNested setup depth) (NestedFails setup depth)

variable {setup : Setup} {run run' : Runner} {s : Nat} {c : Script.Command} {w : Script.Word}
    {st st' : State}
  {e : ScriptError} {halt : Halt}

theorem fault_of_mem_wordPieces {f : ScriptFault} (h : .fault f ∈ wordPieces w) :
    f = .openBracket ∨ ∃ c, f = .escape c := by
  unfold wordPieces at h
  split at h
  · cases h
  · simp at h
  · exact Piece.fault_of_mem_ofChars h
  · exact Piece.fault_of_mem_ofChars h

theorem wordValue_error_iff : wordValue run s c w st = .error halt st' ↔
    (wordPieces w).mapM (·.value run s (c.wordLocation w)) st = .error halt st' := by
  unfold wordValue wordPieces
  cases w.kind with
  | braced => exact ⟨nofun, nofun⟩
  | bracketed =>
    rw [List.mapM_cons]
    exact Run.bind_pure_error_iff.symm
  | bare | quoted => exact Run.bind_pure_error_iff

theorem wordValue_fails_iff :
    wordValue run s c w st = .error (.fault e) st' ↔ WordFails run run.fails s c w st e st' := by
  have hvalue {p : Piece} (hp : p ∈ wordPieces w) {st : State} :
      p.value run s (c.wordLocation w) st = .error (.fault e) st' ↔ _ :=
    Piece.value_fails_iff fun f hf => fault_of_mem_wordPieces (hf ▸ hp)
  rw [wordValue_error_iff, Run.mapM_error_iff]
  constructor
  · rintro ⟨before, p, after, values, st₁, hw, hbefore, h⟩
    exact .part hw hbefore ((hvalue (by simp [hw])).1 h)
  · rintro ⟨hw, hbefore, h⟩
    exact ⟨_, _, _, _, _, hw, hbefore, (hvalue (by simp [hw])).2 h⟩

theorem carryOut_error_iff : carryOut setup run s c st = .error halt st' ↔
    c.words.mapM (wordValue run s c) st = .error halt st' ∨
      ∃ name args st₁, c.words.mapM (wordValue run s c) st = .ok (name :: args) st₁ ∧
        perform setup run s c name args st₁ = .error halt st' := by
  rw [carryOut_eq, Script.Command.words, List.mapM_cons]
  constructor
  · intro h
    rcases Run.bind_error_iff.1 h with h | ⟨name, st₁, hname, h⟩
    · exact .inl (Run.bind_error_iff.2 (.inl h))
    rcases Run.bind_error_iff.1 h with h | ⟨args, st₂, hargs, h⟩
    · exact .inl (Run.bind_error_iff.2 (.inr ⟨name, st₁, hname, Run.bind_pure_error_iff.2 h⟩))
    · refine .inr ⟨name, args, st₂, ?_, h⟩
      exact Run.bind_ok_iff.2 ⟨name, st₁, hname, Run.bind_ok_iff.2 ⟨args, st₂, hargs, rfl⟩⟩
  · rintro (h | ⟨name, args, st₁, hwords, h⟩)
    · rcases Run.bind_error_iff.1 h with h | ⟨name, st₁, hname, h⟩
      · exact Run.bind_error_iff.2 (.inl h)
      · refine Run.bind_error_iff.2 (.inr ⟨name, st₁, hname, ?_⟩)
        exact Run.bind_error_iff.2 (.inl (Run.bind_pure_error_iff.1 h))
    · obtain ⟨name', st₂, hname, hrest⟩ := Run.bind_ok_iff.1 hwords
      obtain ⟨args', st₃, hargs, heq⟩ := Run.bind_ok_iff.1 hrest
      cases heq
      exact Run.bind_error_iff.2
        (.inr ⟨name, st₂, hname, Run.bind_error_iff.2 (.inr ⟨args, st₁, hargs, h⟩)⟩)

/-- Once its words have values, a command fails with the fault that its handler raises, or its
handler is in a run that fails. -/
theorem perform_fails_iff {name : String} {args : List String} :
    perform setup run s c name args st = .error (.fault e) st' ↔
      (∃ fault, handled setup run s c name args st = .ok (.error fault) st' ∧
        ⟨.command name fault, c.location⟩ = e) ∨
      handled setup run s c name args st = .error (.fault e) st' := by
  let logged := (st.withEntry s (name :: args)).scope s
  have hperform : perform setup run s c name args st =
      ((dispatch ⟨setup, run, s, c, logged.log.size - 1⟩ name args (logged.handler? name)).run >>=
        settle s (logged.log.size - 1) name c.location)
      (st.begin s (name :: args) (logged.handler? name)) := rfl
  rw [hperform, Run.bind_error_iff, or_comm]
  refine or_congr ?_ Iff.rfl
  constructor
  · rintro ⟨r, st₁, hr, h⟩
    cases r with
    | ok completion =>
      obtain ⟨st₂, hsettle, -⟩ := settle_ok_run st₁ name c.location completion
      rw [hsettle] at h
      cases h
    | error fault =>
      cases h
      exact ⟨fault, hr, rfl⟩
  · rintro ⟨fault, hfault, rfl⟩
    exact ⟨.error fault, st', hfault, rfl⟩

theorem handlerFails_of_handled {name : String} {args : List String}
    (h : handled setup run s c name args st = .error (.fault e) st') :
    HandlerFails run run.fails s c name e st' := by
  have hunwinding : Unwinding (HandlerFails run run.fails s c name) s c.location run run :=
    ⟨fun _ _ _ _ _ _ _ h => h, .script, .part⟩
  unfold handled at h
  dsimp only at h
  cases hhandler : ((st.withEntry s (name :: args)).scope s).handler? name with
  | none =>
    rw [hhandler] at h
    cases h
    exact .unknown hhandler
  | some handler =>
    rw [hhandler] at h
    exact (dispatch_unwinds _ hunwinding name args handler).fails h

theorem carryOut_fails_iff : carryOut setup run s c st = .error (.fault e) st' ↔
    CommandFails setup run run.fails s c st e st' := by
  rw [carryOut_error_iff, Run.mapM_error_iff]
  constructor
  · rintro (⟨before, w, after, values, st₁, hc, hbefore, h⟩ | ⟨name, args, st₁, hwords, h⟩)
    · exact .word hc hbefore (wordValue_fails_iff.1 h)
    · rcases perform_fails_iff.1 h with ⟨fault, hfault, rfl⟩ | hhalt
      · exact .raised hwords hfault
      · exact .halted hwords hhalt (handlerFails_of_handled hhalt)
  · intro h
    cases h with
    | word hc hbefore h => exact .inl ⟨_, _, _, _, _, hc, hbefore, wordValue_fails_iff.2 h⟩
    | raised hwords h => exact .inr ⟨_, _, _, hwords, perform_fails_iff.2 (.inl ⟨_, h, rfl⟩)⟩
    | halted hwords h => exact .inr ⟨_, _, _, hwords, perform_fails_iff.2 (.inr h)⟩

/-- Commands halt at the first that halts; those before it have completed normally. -/
theorem carryOutAll_error_iff {command : Script.Command → Run Completion} {cs : List Script.Command}
    {last : String} : carryOutAll command (.normal last) cs st = .error halt st' ↔
      ∃ before c after value st₁, cs = before ++ c :: after ∧
        carryOutAll command (.normal last) before st = .ok (.normal value) st₁ ∧
        command c st₁ = .error halt st' := by
  induction cs generalizing last st with
  | nil =>
    constructor
    · nofun
    · rintro ⟨before, c, after, value, st₁, hcs, -⟩
      simp at hcs
  | cons c rest ih =>
    rw [carryOutAll, Run.bind_error_iff]
    constructor
    · rintro (h | ⟨completion, st₁, hc, h⟩)
      · exact ⟨[], c, rest, last, st, rfl, rfl, h⟩
      · cases completion with
        | normal value =>
          obtain ⟨before, d, after, v, st₂, rfl, hbefore, hd⟩ := ih.1 h
          refine ⟨c :: before, d, after, v, st₂, rfl, ?_, hd⟩
          rw [carryOutAll, Run.bind_of_ok hc]
          exact hbefore
        | _ => cases h
    · rintro ⟨before, d, after, v, st₁, hcs, hbefore, hd⟩
      cases before with
      | nil =>
        cases hcs
        cases hbefore
        exact .inl hd
      | cons b before =>
        cases hcs
        rw [carryOutAll, Run.bind_ok_iff] at hbefore
        obtain ⟨completion, st₂, hc, hbefore⟩ := hbefore
        refine .inr ⟨completion, st₂, hc, ?_⟩
        cases completion with
        | normal value => exact ih.2 ⟨before, d, after, v, st₁, rfl, hbefore, hd⟩
        | _ => cases hbefore

theorem runScript_fails : (runScript setup run).fails = ScriptFails setup run run.fails := by
  funext s script filename line st e st'
  unfold Runner.fails runScript
  cases hread : Script.readScript script filename line with
  | error r =>
    refine propext ⟨fun h => ?_, fun h => ?_⟩
    · cases h
      exact .unreadable hread
    · cases h with
      | unreadable h =>
        cases hread.symm.trans h
        rfl
      | command h => cases hread.symm.trans h
  | ok commands =>
    refine propext ⟨fun h => ?_, fun h => ?_⟩
    · obtain ⟨before, c, after, value, st₁, rfl, hbefore, hc⟩ := carryOutAll_error_iff.1 h
      exact .command hread hbefore (carryOut_fails_iff.1 hc)
    · cases h with
      | unreadable h => cases hread.symm.trans h
      | command h hbefore hc =>
        cases hread.symm.trans h
        exact carryOutAll_error_iff.2 ⟨_, _, _, _, _, rfl, hbefore, carryOut_fails_iff.2 hc⟩

theorem runNested_fails (setup : Setup) (depth : Nat) :
    (runNested setup depth).fails = NestedFails setup depth := by
  induction depth with
  | zero =>
    funext s script filename line st e st'
    exact propext ⟨nofun, False.elim⟩
  | succ depth ih => rw [runNested, runScript_fails, NestedFails, ih]

section

variable (hkeeps : run.Keeps run')

include hkeeps

theorem carryOut_keeps (s : Nat) (c : Script.Command) :
    Run.Unwinds (fun _ _ => True) (carryOut setup run s c) (carryOut setup run' s c) := by
  have hsame {α : Type} (x : Run α) : Run.Unwinds (fun _ _ => True) x x := ⟨id, fun _ => trivial⟩
  refine (wordValue_keeps hkeeps s c c.head).bind fun name => ?_
  refine (Run.Unwinds.mapM fun w _ => wordValue_keeps hkeeps s c w).bind fun args => ?_
  refine (hsame _).bind fun entry => (hsame _).bind fun sc => (hsame _).bind fun _ => ?_
  refine Run.Unwinds.bind ?_ fun r => hsame _
  cases sc.handler? name with
  | none => exact hsame _
  | some handler =>
    exact dispatch_unwinds ⟨setup, run, s, c, entry⟩ (.of_keeps hkeeps) name args handler

theorem carryOutAll_keeps (s : Nat) (last : Completion) (cs : List Script.Command) :
    Run.Unwinds (fun _ _ => True) (carryOutAll (carryOut setup run s) last cs)
      (carryOutAll (carryOut setup run' s) last cs) := by
  induction cs generalizing last with
  | nil =>
    rw [carryOutAll, carryOutAll]
    exact .pure _
  | cons c rest ih =>
    rw [carryOutAll, carryOutAll]
    refine (carryOut_keeps hkeeps s c).bind fun completion => ?_
    cases completion with
    | normal value => exact ih _
    | _ => exact .pure _

/-- A script that completes has met no failure of those that it ran: whatever else these did, it
would complete in the same way. -/
theorem runScript_keeps : (runScript setup run).Keeps (runScript setup run') := by
  intro s script filename line st c st' h
  unfold runScript at h ⊢
  cases hread : Script.readScript script filename line with
  | error r =>
    rw [hread] at h
    cases h
  | ok commands =>
    rw [hread] at h
    exact (carryOutAll_keeps hkeeps s _ commands).keeps h

end

theorem outermost_ok_iff {filename value : String} {completion : Completion} :
    outermost filename completion st = .ok value st' ↔ completion.value? = some value ∧
    st = st' := by
  unfold outermost
  cases completion.value? with
  | none => exact ⟨nofun, nofun⟩
  | some value =>
    constructor
    · intro h
      cases h
      exact ⟨rfl, rfl⟩
    · rintro ⟨h, rfl⟩
      cases h
      rfl

theorem outermost_error_iff {filename : String} {completion : Completion} :
    outermost filename completion st = .error halt st' ↔ completion.value? = none ∧ st = st' ∧
      halt = .fault ⟨.outsideContext completion.name, ⟨filename, 0, 0, 0⟩⟩ := by
  unfold outermost
  cases completion.value? with
  | none =>
    constructor
    · intro h
      cases h
      exact ⟨rfl, rfl, rfl⟩
    · rintro ⟨-, rfl, rfl⟩
      rfl
  | some value => exact ⟨nofun, nofun⟩

section

variable {script filename value : String}

theorem evaluate_ok_iff : evaluate setup script filename st = .ok value st' ↔
    ∃ c, runNested setup depthLimit 0 script filename 1 st = .ok c st' ∧ c.value? = some value := by
  rw [evaluate, Run.bind_ok_iff]
  simp only [outermost_ok_iff]
  constructor
  · rintro ⟨c, st₁, hc, hvalue, rfl⟩
    exact ⟨c, hc, hvalue⟩
  · rintro ⟨c, hc, hvalue⟩
    exact ⟨c, st', hc, hvalue, rfl⟩

theorem evaluate_error_iff : evaluate setup script filename st = .error halt st' ↔
    runNested setup depthLimit 0 script filename 1 st = .error halt st' ∨
    ∃ c, runNested setup depthLimit 0 script filename 1 st = .ok c st' ∧ c.value? = none ∧
      halt = .fault ⟨.outsideContext c.name, ⟨filename, 0, 0, 0⟩⟩ := by
  rw [evaluate, Run.bind_error_iff]
  simp only [outermost_error_iff]
  refine or_congr Iff.rfl ?_
  constructor
  · rintro ⟨c, st₁, hc, hvalue, rfl, he⟩
    exact ⟨c, hc, hvalue, he⟩
  · rintro ⟨c, hc, hvalue, he⟩
    exact ⟨c, st', hc, hvalue, rfl, he⟩

end

/-- A console gives the value of a script, or the error that the script fails with, in which every
fault raised at any depth has its place, and no failure is caught; otherwise scripts were nested too
deep. A completion that has no value is an error at the outermost level. -/
theorem evaluate_outcome (setup : Setup) (script filename : String) (st : State) :
    ((∃ value st', evaluate setup script filename st = .ok value st') ∨
      (∃ e st', evaluate setup script filename st = .error (.fault e) st') ∨
      ∃ st', evaluate setup script filename st = .error .tooDeep st' ∧
        runNested setup depthLimit 0 script filename 1 st = .error .tooDeep st') ∧
    (∀ value st', evaluate setup script filename st = .ok value st' ↔
      ∃ c, runNested setup depthLimit 0 script filename 1 st = .ok c st' ∧ c.value? = some value) ∧
    (∀ e st', evaluate setup script filename st = .error (.fault e) st' ↔
      NestedFails setup depthLimit 0 script filename 1 st e st' ∨
      ∃ c, runNested setup depthLimit 0 script filename 1 st = .ok c st' ∧ c.value? = none ∧
        e = ⟨.outsideContext c.name, ⟨filename, 0, 0, 0⟩⟩) ∧
    ∀ depth run', (runNested setup depth).Keeps run' →
      (runNested setup (depth + 1)).Keeps (runScript setup run') := by
  refine ⟨?_, fun value st' => evaluate_ok_iff, fun e st' => ?_,
    fun depth run' h => runScript_keeps h⟩
  · cases hr : evaluate setup script filename st with
    | ok value st' => exact .inl ⟨value, st', rfl⟩
    | error halt st' =>
      cases halt with
      | fault e => exact .inr (.inl ⟨e, st', rfl⟩)
      | tooDeep =>
        refine .inr (.inr ⟨st', rfl, (evaluate_error_iff.1 hr).resolve_right ?_⟩)
        rintro ⟨c, -, -, h⟩
        cases h
  · rw [evaluate_error_iff, ← runNested_fails]
    simp only [Halt.fault.injEq]
    exact Iff.rfl

end RadarTimeline.Console
