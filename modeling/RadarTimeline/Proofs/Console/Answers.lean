import RadarTimeline.Proofs.Console.Commands
import RadarTimeline.Proofs.Console.Cycle

namespace RadarTimeline.Console

variable {α : Type}

/-- An act that asks for no jump. -/
def Act.Answers (x : Act Completion) : Prop := Act.Gives x fun c => c.target? = none

namespace Act.Answers

theorem give (value : String) : Act.Answers (Call.give value) := .pure rfl

theorem done : Act.Answers Call.done := .pure rfl

theorem usage (fault : UsageFault) : Act.Answers (Call.usage fault) := .throw _

theorem refuse (text : String) : Act.Answers (Call.refuse text) := .throw _

/-- What is done before does not matter. -/
theorem after {x : Act α} {f : α → Act Completion} (h : ∀ a, Act.Answers (f a)) :
    Act.Answers (x >>= f) := by
  intro st c st' hc
  cases hr : x.run st with
  | ok r st₁ =>
    cases r with
    | ok a => exact h a ((bind_of_ok hr).symm.trans hc)
    | error e =>
      rw [bind_of_fault hr] at hc
      cases hc
  | error halt st₁ =>
    rw [bind_of_halt hr] at hc
    cases hc

theorem ite {b : Prop} [Decidable b] {x y : Act Completion} (hx : Act.Answers x)
    (hy : Act.Answers y) :
    Act.Answers (if b then x else y) := by
  split
  · exact hx
  · exact hy

theorem guarded {b : Prop} [Decidable b] {x : Act Unit} {next : Unit → Act Completion}
    (h : Act.Answers (next ())) : Act.Answers (if b then x >>= next else next ()) :=
  .ite (.after fun _ => h) h

end Act.Answers

namespace Builtin

variable (call : Call) (args : List String)

theorem runInfo_answers : Act.Answers (runInfo call args) := by
  unfold runInfo
  split
  · exact .after fun _ => .give _
  · exact .usage _

theorem runPuts_answers : Act.Answers (runPuts args) := by
  unfold runPuts
  dsimp only
  split
  · exact .after fun _ => .done
  · exact .after fun _ => .done
  · exact .refuse _

theorem runLindex_answers : Act.Answers (runLindex args) := by
  unfold runLindex
  split
  · exact .give _
  · exact .after fun _ => .after fun _ => .give _
  · exact .refuse _

theorem runJoin_answers : Act.Answers (runJoin args) := by
  unfold runJoin
  split
  · exact .after fun _ => .give _
  · exact .after fun _ => .give _
  · exact .refuse _

theorem runSplit_answers : Act.Answers (runSplit args) := by
  unfold runSplit
  split
  · exact .give _
  · exact .give _
  · exact .refuse _

theorem stringCommand_answers : Act.Answers (stringCommand args) := by
  unfold stringCommand
  split
  · split <;> first | exact .give _ | exact .refuse _ | exact .usage _
  · exact .refuse _

end Builtin

namespace Operator

variable (call : Call) (args : List String)

theorem defineBlock_answers : Act.Answers (defineBlock call args) := by
  unfold defineBlock
  split
  · exact .after fun _ => .after fun _ => .done
  · exact .refuse _

theorem loadRadar_answers : Act.Answers (loadRadar call args) := by
  cases args with
  | nil => exact .refuse _
  | cons which options =>
    exact .after fun _ => .guarded (.after fun _ => .after fun _ => .done)

theorem startRadar_answers : Act.Answers (startRadar call args) := by
  cases args with
  | nil => exact .refuse _
  | cons time rest => exact .after fun _ => .done

theorem stopRadar_answers : Act.Answers (stopRadar call args) := by
  unfold stopRadar
  dsimp only
  exact .ite (.after fun _ => .done) (.after fun _ => .after fun _ => .done)

theorem getStartTime_answers : Act.Answers (getStartTime call args) := by
  cases args with
  | nil => exact .refuse _
  | cons device rest =>
    refine .after fun state => ?_
    dsimp only
    split
    · exact .give _
    · exact .usage _

theorem selectLo_answers : Act.Answers (selectLo call args) := by
  unfold selectLo
  split
  · refine .after fun state => ?_
    dsimp only
    refine .guarded (.guarded ?_)
    split
    · exact .usage _
    · exact .after fun _ => .after fun _ => .after fun _ => .done
  · exact .refuse _

theorem readFrequencyFile_answers : Act.Answers (readFrequencyFile call args) := by
  unfold readFrequencyFile
  split
  · refine .guarded ?_
    split
    · exact .after fun _ => .done
    · split
      · exact .give _
      · exact .usage _
  · exact .refuse _

theorem setPanelPath_answers : Act.Answers (setPanelPath call args) := by
  refine .after fun state => .ite ?_ .done
  split
  · exact .after fun _ => .done
  · split <;> exact .after fun _ => .done

theorem loadFilter_answers : Act.Answers (loadFilter call args) := by
  refine .after fun _ => ?_
  dsimp only
  split
  · exact .after fun _ => .after fun _ => .after fun _ => .done
  · exact .refuse _

theorem startData_answers : Act.Answers (startData call args) := by
  unfold startData
  dsimp only
  split
  · exact .after fun _ => .ite .done (.ite (.usage _) (.after fun _ => .after fun _ => .done))
  · exact .refuse _

theorem disableRecording_answers : Act.Answers (disableRecording call args) := by
  refine .after fun state => ?_
  dsimp only
  refine .ite (.after fun _ => .done) ?_
  split <;> exact .after fun _ => .done

theorem writeExperimentFile_answers : Act.Answers (writeExperimentFile call args) := by
  cases args with
  | nil => exact .refuse _
  | cons files rest => exact .after fun _ => .after fun _ => .done

theorem userParameter_answers : Act.Answers (userParameter call args) := by
  refine .after fun _ => .guarded ?_
  split
  · exact .after fun _ => .done
  · exact .after fun _ => .give _
  · exact .after fun _ => .done
  · exact .after fun _ => .done
  · exact .done

theorem writeTimestamp_answers : Act.Answers (writeTimestamp args) := by
  unfold writeTimestamp
  split
  · exact .refuse _
  · exact .ite (.usage _) (.give _)

/-- An operator that does not steer the script gives a value or fails. -/
theorem run_answers {o : Operator} (ho : ¬ o.Steers) : Act.Answers (o.run call args) := by
  cases o with
  | runexperiment | callblock | gotoblock | loadfile => exact absurd trivial ho
  | argv | isradar | isSite => exact .after fun _ => .give _
  | block => exact defineBlock_answers call args
  | loadradar => exact loadRadar_answers call args
  | armradar => exact .after fun _ => .after fun _ => .done
  | startradar => exact startRadar_answers call args
  | stopradar => exact stopRadar_answers call args
  | getstarttime => exact getStartTime_answers call args
  | selectlo => exact selectLo_answers call args
  | loadfrequency =>
    exact .after fun _ => .after fun _ => .after fun _ => .after fun _ => .after fun _ => .done
  | readfrequencyfile => exact readFrequencyFile_answers call args
  | setfrequency => exact .after fun _ => .after fun _ => .after fun _ => .after fun _ => .done
  | setpanelpath => exact setPanelPath_answers call args
  | loadfilter => exact loadFilter_answers call args
  | startdata => exact startData_answers call args
  | disablerecording => exact disableRecording_answers call args
  | writeexperimentfile => exact writeExperimentFile_answers call args
  | upar => exact userParameter_answers call args
  | timestamp => exact writeTimestamp_answers args
  | sync | transferlo | stopdata | disp | logbook | mount => exact .after fun _ => .done

end Operator

end RadarTimeline.Console
