import RadarTimeline.Console.Control
import RadarTimeline.Text.Case

namespace RadarTimeline.Console

def readInteger (text : String) : Act Float :=
  match Number.readWhole? (Text.trim text.toList) with
  | some n => return Number.ofInt n
  | none => Call.usage (.notInteger text)

/-- An index counted from the start, or from the end as in `end-1`. -/
def readIndex (text : String) (length : Nat) : Act Int :=
  let body := Text.trim text.toList
  let back := match body with
    | 'e' :: 'n' :: 'd' :: [] => some 0
    | 'e' :: 'n' :: 'd' :: '-' :: digits => Number.readDigits? 10 digits
    | _ => none
  match back, Number.readWhole? body with
  | some n, _ => return (length : Int) - 1 - n
  | none, some n => return n
  | none, none => Call.usage (.notInteger text)

/-- The element of a list at an index; there is an empty one at all others. -/
def elementAt (elements : List String) : Int → String
  | .ofNat i => elements[i]?.getD ""
  | .negSucc _ => ""

/-- A text without the characters of a set at its ends. A pair of units is never in a set. -/
def trimSet (set text : List Char) : List Char :=
  let inSet (c : Char) := set.contains c && Text.unitCount c == 1
  ((text.dropWhile inSet).reverse.dropWhile inSet).reverse

def stringUsage : String := "string subcommand string ?arg ...?"

def stringCommand : List String → Act Completion
  | subcommand :: text :: rest =>
    match subcommand, rest with
    | "tolower", _ => Call.give (Text.lowerString text)
    | "toupper", _ => Call.give (Text.upperString text)
    | "length", _ => Call.give (toString text.length)
    | "trim", [] => Call.give (Text.trimString text)
    | "trim", set :: _ => Call.give (String.ofList (trimSet set.toList text.toList))
    | "equal", [] => Call.refuse "string equal string1 string2"
    | "equal", other :: _ => Call.give (if text = other then "1" else "0")
    | _, _ => Call.usage (.stringSubcommand subcommand)
  | _ => Call.refuse stringUsage

/-- The pieces of a text between separators. Without any separator every character is a piece. -/
def splitText (text separators : String) : List String :=
  if separators = "" then text.toList.map (·.toString)
  else (Text.splitAt (separators.toList.contains ·) text.toList).map String.ofList

def blankSeparators : String := " \t\n\r"

def appendList (list : String) (elements : List String) : String :=
  let added := Script.listText elements
  if list = "" then added else if added = "" then list else list ++ " " ++ added

namespace Builtin

variable (call : Call)

def runSet : List String → Act Completion
  | [name] => do
    match (← call.getScope).bindings.get? name with
    | some value => Call.give value
    | none => Call.usage (.noVariable name)
  | [name, value] => do
    call.setVariable name value
    Call.give value
  | _ => Call.refuse "set varName ?newValue?"

/-- Adds to a variable, which is zero if it is not set. -/
def increase (name : String) (increment : Act Float) : Act Completion := do
  let current ← readInteger (((← call.getScope).bindings.get? name).getD "0")
  let next := Number.text (current + (← increment))
  call.setVariable name next
  Call.give next

def runIncr : List String → Act Completion
  | [name] => increase call name (pure 1)
  | [name, increment] => increase call name (readInteger increment)
  | _ => Call.refuse "incr varName ?increment?"

/-- Changes the value of a variable, which is empty if it is not set. -/
def alter (name : String) (f : String → String) : Act Completion := do
  let next := f (((← call.getScope).bindings.get? name).getD "")
  call.setVariable name next
  Call.give next

def runAppend : List String → Act Completion
  | name :: values => alter call name (· ++ String.join values)
  | [] => Call.refuse "append varName ?value ...?"

def runLappend : List String → Act Completion
  | name :: values => alter call name (appendList · values)
  | [] => Call.refuse "lappend varName ?value ...?"

def runInfo : List String → Act Completion
  | ["exists", name] => do
    Call.give (if ((← call.getScope).bindings.get? name).isSome then "1" else "0")
  | args => Call.usage (.infoSubcommand (args.headD ""))

def runFor : List String → Act Completion
  | [start, test, next, body] => do
    match ← call.runScript start with
    | .normal _ => call.forLoop test next body call.setup.limits.loopLimit.rounds
    | c => return c
  | _ => Call.refuse "for start test next command"

def runWhile : List String → Act Completion
  | [test, body] => call.whileLoop test body call.setup.limits.loopLimit.rounds
  | _ => Call.refuse "while test command"

def runForeach : List String → Act Completion
  | [name, items, body] => do
    call.foreachLoop name body call.setup.limits.loopLimit.rounds (← Call.listElements items)
  | _ => Call.refuse "foreach varName list body"

def runProc : List String → Act Completion
  | [name, parameters, body] => do
    call.define name parameters body
    Call.done
  | _ => Call.refuse "proc name args body"

def runSubst : List String → Act Completion
  | [text] => do
    let value ← (substitute call.run call.scope text call.command.location : Run String)
    Call.give value
  | _ => Call.refuse "subst string"

def runSource : List String → Act Completion
  | [path] => call.runFile path
  | _ => Call.refuse "source fileName"

/-- Prints a text. A channel in front of it does not matter. -/
def runPuts (args : List String) : Act Completion := do
  let (rest, ending) := match args with
    | "-nonewline" :: rest => (rest, "")
    | _ => (args, "\n")
  match rest with
  | [text] | [_, text] =>
    Run.record (.printed (text ++ ending))
    Call.done
  | _ => Call.refuse "puts ?-nonewline? ?channelId? string"

def runLindex : List String → Act Completion
  | [items] => Call.give items
  | [items, index] => do
    let elements ← Call.listElements items
    Call.give (elementAt elements (← readIndex index elements.length))
  | _ => Call.refuse "lindex list ?index?"

def runJoin : List String → Act Completion
  | [items] => do Call.give (String.intercalate " " (← Call.listElements items))
  | [items, separator] => do Call.give (String.intercalate separator (← Call.listElements items))
  | _ => Call.refuse "join list ?joinString?"

def runSplit : List String → Act Completion
  | [text] => Call.give (Script.listText (splitText text blankSeparators))
  | [text, separators] => Call.give (Script.listText (splitText text separators))
  | _ => Call.refuse "split string ?splitChars?"

def run (args : List String) : Builtin → Act Completion
  | .set => runSet call args
  | .incr => runIncr call args
  | .append => runAppend call args
  | .lappend => runLappend call args
  | .global => do
    call.logLanguage .debug ("global " ++ String.intercalate " " args ++ " ignored")
    Call.done
  | .info => runInfo call args
  | .expr =>
    if args.isEmpty then Call.refuse "expr arg ?arg ...?"
    else do Call.give (← call.evaluate (String.intercalate " " args))
  | .ifElse => (Branches.read args).run call
  | .for_ => runFor call args
  | .while_ => runWhile call args
  | .foreach => runForeach call args
  | .return_ => return .returned (args.getLastD "")
  | .break_ => return .broken
  | .continue_ => return .continued
  | .proc => runProc call args
  | .eval =>
    if args.isEmpty then Call.refuse "eval arg ?arg ...?"
    else call.runScript (String.intercalate " " args)
  | .subst => runSubst call args
  | .source => runSource call args
  | .exec => Call.usage (.execForbidden args)
  | .puts => runPuts args
  | .list => Call.give (Script.listText args)
  | .llength =>
    match args with
    | [items] => do Call.give (toString (← Call.listElements items).length)
    | _ => Call.refuse "llength list"
  | .lindex => runLindex args
  | .join => runJoin args
  | .split => runSplit args
  | .string => stringCommand args

end Builtin

end RadarTimeline.Console
