import RadarTimeline.Console.Call

namespace RadarTimeline.Console

/-- The arguments of a choice, as far as they are looked at. -/
inductive Branches where
  | test (condition body : String) (otherwise : Branches)
  | script (body : String)
  | nothing
  | fault (f : UsageFault)
deriving Repr, DecidableEq

namespace Branches

def usage : String := "if expr1 ?then? body1 elseif expr2 ?then? body2 ... ?else? ?bodyN?"

def skip (word : String) : List String → List String
  | [] => []
  | w :: ws => if w = word then ws else w :: ws

theorem skip_length (word : String) (ws : List String) : (skip word ws).length ≤ ws.length := by
  cases ws <;> grind [skip]

def last : List String → Branches
  | [] => .fault (.noScript "else")
  | [body] => .script body
  | _ => .fault .extraWords

def read : List String → Branches
  | [] => .fault (.wrongArguments usage)
  | condition :: rest =>
    match _h : skip "then" rest with
    | [] => .fault (.noScript condition)
    | body :: [] => .test condition body .nothing
    | body :: word :: more =>
      .test condition body (if word = "elseif" then read more
        else last (skip "else" (word :: more)))
termination_by args => args.length
decreasing_by
  have := skip_length "then" rest
  simp_all; omega

def run (call : Call) : Branches → Act Completion
  | .test condition body otherwise => do
    if ← call.condition condition then call.runScript body else otherwise.run call
  | .script body => call.runScript body
  | .nothing => Call.done
  | .fault f => Call.usage f

end Branches

/-- How a loop goes on after its body. -/
inductive LoopVerdict where
  | next
  | stop
  | leave (c : Completion)
deriving Repr, DecidableEq

def LoopVerdict.ofCompletion : Completion → LoopVerdict
  | .normal _ | .continued => .next
  | .broken => .stop
  | c => .leave c

namespace Call

variable (call : Call)

def runBody (body : String) : Act LoopVerdict := return .ofCompletion (← call.runScript body)

/-- Runs a body while a condition holds, at most `remaining` times. -/
def whileLoop (test body : String) : Nat → Act Completion
  | 0 => do
    if ← call.condition test then usage (.loopExceeded "while" call.setup.limits.loopLimit)
    else done
  | remaining + 1 => do
    if ← call.condition test then
      match ← call.runBody body with
      | .next => whileLoop test body remaining
      | .stop => done
      | .leave c => return c
    else done

/-- Runs a body and a script after it while a condition holds, at most `remaining` times. -/
def forLoop (test next body : String) : Nat → Act Completion
  | 0 => do
    if ← call.condition test then usage (.loopExceeded "for" call.setup.limits.loopLimit) else done
  | remaining + 1 => do
    if ← call.condition test then
      match ← call.runBody body with
      | .next =>
        match ← call.runScript next with
        | .normal _ => forLoop test next body remaining
        | c => return c
      | .stop => done
      | .leave c => return c
    else done

/-- Runs a body for each element of a list, at most `remaining` times. -/
def foreachLoop (name body : String) : Nat → List String → Act Completion
  | _, [] => done
  | 0, _ :: _ => usage (.loopExceeded "foreach" call.setup.limits.loopLimit)
  | remaining + 1, element :: rest => do
    call.setVariable name element
    match ← call.runBody body with
    | .next => foreachLoop name body remaining rest
    | .stop => done
    | .leave c => return c

end Call

end RadarTimeline.Console
