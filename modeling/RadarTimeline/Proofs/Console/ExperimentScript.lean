import RadarTimeline.Proofs.Console.Interpreter
import RadarTimeline.Proofs.Script.ListWords

namespace RadarTimeline.Console

open Script

variable {st : State} {run : Runner} {scope : Nat} {c : Script.Command}

def experimentScript (path : String) (args : List String) : String :=
  "runexperiment " ++ listText (path :: "0" :: args)

theorem runExperiment_eq (setup : Setup) (path : String) (args : List String) :
    runExperiment setup path args = evaluate setup (experimentScript path args) := rfl

theorem Piece.ofChars_plain {cs : List Char} (h : Plain cs) :
    Piece.ofChars cs = cs.map .literal := by
  induction cs with
  | nil => rw [Piece.ofChars]; rfl
  | cons c cs ih =>
    obtain ⟨hc, hcs⟩ := plain_cons.1 h
    obtain ⟨-, -, -, hescape, hbracket, -, -, -, hdollar⟩ := ne_of_plain hc
    rw [Piece.ofChars, if_neg hdollar, if_neg hbracket, ih hcs, List.map_cons]
    all_goals simp [hescape]

theorem literals_run (cs : List Char) (location : Script.Location) (st : State) :
    (cs.map Piece.literal).mapM (·.value run scope location) st = .ok (cs.map (·.toString)) st := by
  induction cs with
  | nil => rfl
  | cons c cs ih =>
    rw [List.map_cons, List.mapM_cons]
    refine (Run.bind_of_ok (rfl : (Piece.literal c).value run scope location st =
      .ok c.toString st)).trans ?_
    exact (Run.bind_of_ok ih).trans rfl

theorem join_toString (cs : List Char) : String.join (cs.map (·.toString)) = String.ofList cs := by
  rw [← String.toList_inj, String.toList_join, String.toList_ofList, List.flatMap_map]
  simp

theorem wordValue_of_spells {w : Word} {x : String} (h : w.Spells x) :
    wordValue run scope c w st = .ok x st := by
  obtain ⟨rfl, hkind | ⟨hkind, hplain⟩⟩ := h
  · rw [wordValue, hkind]
    rfl
  · rw [wordValue, hkind]
    change substitute run scope w.text (c.wordLocation w) st = _
    rw [substitute, Piece.ofChars_plain hplain]
    refine (Run.bind_of_ok (literals_run w.text.toList _ st)).trans ?_
    rw [join_toString, String.ofList_toList]
    rfl

theorem mapM_wordValue_of_spells {ws : List Word} {xs : List String}
    (h : List.Forall₂ Word.Spells ws xs) :
    ws.mapM (wordValue run scope c) st = .ok xs st := by
  induction h with
  | nil => rfl
  | cons hw _ ih =>
    rw [List.mapM_cons]
    exact (Run.bind_of_ok (wordValue_of_spells hw)).trans ((Run.bind_of_ok ih).trans rfl)

theorem text_of_wordValue {w : Word} {x : String} {st' : State} (hkind : w.kind = .braced)
    (h : wordValue run scope c w st = .ok x st') : w.text = x := by
  rw [wordValue, hkind] at h
  cases h
  rfl

/-- Each word has the value at its place. -/
theorem exists_run_of_mapM {ws : List Word} {xs : List String} {st' : State}
    (h : ws.mapM (wordValue run scope c) st = .ok xs st') (i : Nat) {w : Word} {x : String}
    (hw : ws[i]? = some w) (hx : xs[i]? = some x) :
    ∃ st₁ st₂, wordValue run scope c w st₁ = .ok x st₂ := by
  induction ws generalizing st xs i with
  | nil => simp at hw
  | cons v ws ih =>
    rw [List.mapM_cons] at h
    cases hv : wordValue run scope c v st with
    | error halt st₁ =>
      rw [Run.bind_of_error hv] at h
      cases h
    | ok y st₁ =>
      rw [Run.bind_of_ok hv] at h
      cases hws : ws.mapM (wordValue run scope c) st₁ with
      | error halt st₂ =>
        rw [Run.bind_of_error hws] at h
        cases h
      | ok ys st₂ =>
        rw [Run.bind_of_ok hws] at h
        cases h
        cases i with
        | zero =>
          cases hw
          cases hx
          exact ⟨st, st₁, hv⟩
        | succ i => exact ih hws i (by simpa using hw) (by simpa using hx)

/-- A script is one command of these words, and running it is carrying out that command, whatever
runs it and where. -/
structure OneCommand (script name : String) (args : List String) (c : Script.Command) : Prop where
  reads : readScript script consoleName 1 = .ok [c]
  values : ∀ run scope st, c.words.mapM (wordValue run scope c) st = .ok (name :: args) st
  runs : ∀ setup run scope st, runScript setup run scope script consoleName 1 st =
    perform setup run scope c name args st

theorem carryOutAll_singleton (command : Script.Command → Run Completion) (last : Completion)
    (c : Script.Command) (st : State) : carryOutAll command last [c] st = command c st := by
  rw [carryOutAll]
  cases h : command c st with
  | error halt st' => exact Run.bind_of_error h
  | ok completion st' =>
    refine (Run.bind_of_ok h).trans ?_
    cases completion <;> rfl

theorem OneCommand.of_spells {script name : String} {args : List String} {head : Word}
    {ws : List Word} (hreads : readScript script consoleName 1 = .ok [⟨consoleName, head, ws⟩])
    (hhead : head.Spells name) (hws : List.Forall₂ Word.Spells ws args) :
    OneCommand script name args ⟨consoleName, head, ws⟩ where
  reads := hreads
  values _ _ _ := mapM_wordValue_of_spells (.cons hhead hws)
  runs setup run scope st := by
    rw [runScript, hreads]
    refine (carryOutAll_singleton _ _ _ st).trans ?_
    rw [carryOut_eq]
    exact (Run.bind_of_ok (wordValue_of_spells hhead)).trans
      (Run.bind_of_ok (mapM_wordValue_of_spells hws))

theorem toList_experimentScript (path : String) (args : List String) :
    (experimentScript path args).toList =
      'r' :: "unexperiment".toList ++ gapped (path :: "0" :: args) := by
  rw [experimentScript, String.toList_append, toList_listText_cons, gapped_cons]
  rfl

theorem scan_experimentScript (path : String) (args : List String) :
    ∃ cur w, w.Spells "runexperiment" ∧ readScript (experimentScript path args) consoleName 1 =
      scan consoleName cur [w] (gapped (path :: "0" :: args)) := by
  have hnone : ('r' :: "unexperiment".toList).any needsBraces = false := by decide
  have hplain : Plain ('r' :: "unexperiment".toList) := fun c hc =>
    Bool.eq_false_iff.2 (List.any_eq_false.1 hnone c hc)
  obtain ⟨cur, w, hspells, hscan⟩ := scan_plain consoleName ⟨1, 1⟩ [] (by decide) hplain
    (apart_gapped (path :: "0" :: args))
  refine ⟨cur, w, hspells, ?_⟩
  rw [readScript, toList_experimentScript, hscan]

/-- The script that runs an experiment is the one command that it should be, with the path and the
arguments unchanged, exactly if each of them is balanced. -/
theorem experimentScript_reads_iff (path : String) (args : List String) :
    (∃ c, OneCommand (experimentScript path args) "runexperiment" (path :: "0" :: args) c) ↔
      ∀ x ∈ path :: args, balanced 0 x.toList = true := by
  obtain ⟨cur, w, hspells, hscan⟩ := scan_experimentScript path args
  constructor
  · rintro ⟨c, hc⟩
    have hread := hc.reads
    rw [hscan] at hread
    have hall :=
      balanced_of_scan hread (rfl : ["runexperiment"].length = 1) fun i w x hw hx hbraced => by
      obtain ⟨st₁, st₂, hvalue⟩ := exists_run_of_mapM
        (hc.values (fun _ _ _ _ => throw .tooDeep) 0 (State.initial .default "")) i hw hx
      exact text_of_wordValue hbraced hvalue
    intro x hx
    refine hall x ?_
    rcases List.mem_cons.1 hx with rfl | hx
    · exact List.mem_cons_self
    · exact List.mem_cons_of_mem _ (List.mem_cons_of_mem _ hx)
  · intro h
    have hall : ∀ x ∈ path :: "0" :: args, balanced 0 x.toList = true := by
      intro x hx
      rcases List.mem_cons.1 hx with rfl | hx
      · exact h x List.mem_cons_self
      · rcases List.mem_cons.1 hx with rfl | hx
        · decide
        · exact h x (List.mem_cons_of_mem _ hx)
    obtain ⟨ws, hws, hrest⟩ := scan_gapped consoleName cur [w] hall
    refine ⟨_, OneCommand.of_spells ?_ hspells hws⟩
    rw [hscan, hrest, finish, List.reverse_append, List.reverse_reverse]
    rfl

/-- An argument that closes its brace adds commands to the script. -/
theorem unbalancedArgument_adds_commands :
    (readScript (experimentScript "e.elan" ["\x7d; loadfilter evil.fil 1; set x \x7b"])
      consoleName 1).map
        (·.map fun c => c.words.map (·.text)) =
      .ok [["runexperiment", "e.elan", "0", ""], ["loadfilter", "evil.fil", "1"],
        ["set", "x", ""]] ∧
    ¬ ∃ c, OneCommand (experimentScript "e.elan" ["\x7d; loadfilter evil.fil 1; set x \x7b"])
      "runexperiment" ["e.elan", "0", "\x7d; loadfilter evil.fil 1; set x \x7b"] c := by
  have hread : (readScript (experimentScript "e.elan" ["\x7d; loadfilter evil.fil 1; set x \x7b"])
      consoleName 1).map (·.map fun c => c.words.map (·.text)) =
      .ok [["runexperiment", "e.elan", "0", ""], ["loadfilter", "evil.fil", "1"],
        ["set", "x", ""]] := by
    decide +kernel
  refine ⟨hread, fun ⟨c, hc⟩ => ?_⟩
  rw [hc.reads] at hread
  have hlength : some 1 = some 3 := congrArg (fun r => r.toOption.map List.length) hread
  cases hlength

end RadarTimeline.Console
