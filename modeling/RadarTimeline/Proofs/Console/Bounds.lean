import RadarTimeline.Proofs.Console.Cycle
import RadarTimeline.Proofs.Console.Nesting

namespace RadarTimeline.Console

theorem rounds_natCast (n : Nat) : Position.rounds n = n := Int.toNat_natCast n

/-- A run is nested deeper than a bound allows, or it is over and the same with any bound that is
not less, whatever happens to scripts that are nested deeper. So a run ends with some bound and all
above it, or it is nested without end: all loops keep to their limits. A loop with a limit does what
it would do without one in at most so many turns, and if it would go on after that, it fails before
the next turn. -/
theorem runs_are_bounded (setup : Setup) :
    (∀ depth s script filename line st,
      (∃ st', runNested setup depth s script filename line st = .error .tooDeep st') ∨
      (∀ beyond, runAbove setup beyond depth s script filename line st =
        runNested setup depth s script filename line st) ∧
      ∀ deeper ≥ depth, runNested setup deeper s script filename line st =
        runNested setup depth s script filename line st) ∧
    (∀ s script filename line st,
      (∃ depth r, (∀ st', r ≠ .error .tooDeep st') ∧
        ∀ deeper ≥ depth, runNested setup deeper s script filename line st = r) ∨
      ∀ depth, ∃ st', runNested setup depth s script filename line st = .error .tooDeep st') ∧
    (∀ call : Call, call.setup = setup →
      (∀ test body, Builtin.runWhile call [test, body] =
        (Cycle.whileTrue call test body).run setup.limits.loopLimit.rounds ()) ∧
      (∀ start test next body, Builtin.runFor call [start, test, next, body] =
        call.runScript start >>= Completion.andThen
          ((Cycle.forTrue call test next body).run setup.limits.loopLimit.rounds ())) ∧
      (∀ name items body, Builtin.runForeach call [name, items, body] =
        Call.listElements items >>=
          (Cycle.forElements call name body).run setup.limits.loopLimit.rounds) ∧
      ∀ args, Operator.runExperiment call args =
        Operator.openExperiment call args >>=
          (Cycle.jumps call).run setup.limits.jumpLimit.rounds) ∧
    (∀ (σ : Type) (l : Cycle σ) n x st r, (l.run n x).run st = r ↔ l.Limited n x st r) ∧
    ∀ n : Nat, Position.rounds n = n := by
  refine ⟨fun depth s script filename line st => ?_, fun s script filename line st => ?_,
    fun call hsetup => ?_, fun σ l n x st r => Cycle.run_iff_limited, rounds_natCast⟩
  · refine (Classical.em _).imp id fun hnot => ?_
    have hover := not_exists.1 hnot
    exact ⟨fun beyond => runNested_agrees_runAbove setup beyond depth s script filename
      line st hover,
      fun deeper hle => runNested_agrees setup hle s script filename line st hover⟩
  · by_cases hover : ∃ depth, ∀ st', runNested setup depth s script filename line st ≠
      .error .tooDeep st'
    · obtain ⟨depth, hover⟩ := hover
      exact .inl ⟨depth, _, hover, fun deeper hle =>
        runNested_agrees setup hle s script filename line st hover⟩
    · exact .inr fun depth => Classical.byContradiction fun hnot => hover ⟨depth, not_exists.1 hnot⟩
  · subst hsetup
    exact ⟨Builtin.runWhile_eq call, Builtin.runFor_eq call, Builtin.runForeach_eq call,
      Operator.runExperiment_eq call⟩

def counting : String := "set i 0; while \x7b$i < 2\x7d \x7bincr i\x7d"

def countingSetup : Setup := ⟨.empty, { loopLimit := 2 }, "eros", "tcl"⟩

theorem counting_is_bounded :
    (∃ c st', runNested countingSetup 3 0 counting consoleName 1 (State.initial .uhf "32m") =
      .ok c st' ∧
      ∀ deeper ≥ 3, runNested countingSetup deeper 0 counting consoleName 1
        (State.initial .uhf "32m") = .ok c st') ∧
    ∀ call : Call, call.setup = countingSetup → ∀ st r,
      (Builtin.runWhile call ["$i < 2", "incr i"]).run st = r ↔
        (Cycle.whileTrue call "$i < 2" "incr i").Limited 2 () st r := by
  have hbounded := runs_are_bounded countingSetup
  have hdone : Run.completes (runNested countingSetup 3 0 counting consoleName 1
      (State.initial .uhf "32m")) = true := by decide +kernel
  obtain ⟨c, st', h⟩ := Run.exists_ok hdone
  refine ⟨⟨c, st', h, fun deeper hle => ?_⟩, fun call hcall st r => ?_⟩
  · obtain ⟨st'', htoo⟩ | ⟨-, hsame⟩ :=
      hbounded.1 3 0 counting consoleName 1 (State.initial .uhf "32m")
    · rw [h] at htoo
      cases htoo
    · exact (hsame deeper hle).trans h
  · rw [(hbounded.2.2.1 call hcall).1]
    exact hbounded.2.2.2.1 Unit _ 2 () st r

end RadarTimeline.Console
