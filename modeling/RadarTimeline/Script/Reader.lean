import RadarTimeline.Script.Bracket
import RadarTimeline.Script.Word

namespace RadarTimeline.Script

inductive Delimiter where
  | brace | quote | bracket
deriving Repr, DecidableEq

def Delimiter.name : Delimiter → String
  | .brace => "brace"
  | .quote => "quote"
  | .bracket => "bracket"

inductive ReadFault where
  | strayComment
  | missing (closing : Delimiter)
  | extra (closing : Delimiter)
deriving Repr, DecidableEq

def ReadFault.message : ReadFault → String
  | .strayComment => "Cannot start a comment here!"
  | .missing closing => "Missing close-" ++ closing.name
  | .extra closing => "Extra characters after close-" ++ closing.name

structure ReadError where
  fault : ReadFault
  location : Location
deriving Repr, DecidableEq

structure Cursor where
  line : Position
  column : Int
deriving Repr, DecidableEq

def Cursor.step (cur : Cursor) (c : Char) : Cursor :=
  if c = '\n' then ⟨cur.line.next, 1⟩ else ⟨cur.line, cur.column + Text.unitCount c⟩

def Cursor.advance (cur : Cursor) (span : List Char) : Cursor := span.foldl Cursor.step cur

def Cursor.location (cur : Cursor) (filename : String) : Location :=
  ⟨filename, cur.line, cur.column, cur.column⟩

def isGap (c : Char) : Bool := c = ' ' || c = '\t' || c = '\r'

theorem length_dropWhile_isGap (cs : List Char) : (cs.dropWhile isGap).length ≤ cs.length :=
  (List.dropWhile_suffix isGap).length_le

/-- A backslash at the end of a line with the indentation of the next, and what follows. -/
def continuation? : List Char → Option (List Char × List Char)
  | '\\' :: '\n' :: cs => some ('\\' :: '\n' :: cs.takeWhile isGap, cs.dropWhile isGap)
  | _ => none

theorem continuation?_append {cs span rest : List Char}
    (h : continuation? cs = some (span, rest)) : span ++ rest = cs := by
  unfold continuation? at h
  split at h <;> grind [List.takeWhile_append_dropWhile]

theorem continuation?_length {cs span rest : List Char}
    (h : continuation? cs = some (span, rest)) : rest.length < cs.length := by
  unfold continuation? at h
  split at h <;> grind [length_dropWhile_isGap]

def atSeparator (cs : List Char) : Bool :=
  match cs with
  | [] => true
  | c :: _ => isGap c || c = '\n' || c = ';' || (continuation? cs).isSome

/-- A stretch of source, the text it stands for, and the source after it. -/
structure Taken where
  span : List Char
  text : List Char
  rest : List Char
deriving Repr, DecidableEq

def Taken.cover (span text : List Char) (t : Taken) : Taken :=
  ⟨span ++ t.span, text ++ t.text, t.rest⟩

/-- The rest of a braced word, closing brace included. `depth` counts the braces open inside. -/
def bracedBody (depth : Nat) : List Char → Option Taken
  | [] => none
  | '\\' :: '\n' :: cs =>
    (bracedBody depth (cs.dropWhile isGap)).map
      (Taken.cover ('\\' :: '\n' :: cs.takeWhile isGap) [' '])
  | '\\' :: c :: cs => (bracedBody depth cs).map (Taken.cover ['\\', c] ['\\', c])
  | c :: cs =>
    if c = '}' then
      match depth with
      | 0 => some ⟨[c], [], cs⟩
      | inner + 1 => (bracedBody inner cs).map (Taken.cover [c] [c])
    else (bracedBody (if c = '{' then depth + 1 else depth) cs).map (Taken.cover [c] [c])
termination_by cs => cs.length
decreasing_by all_goals grind [length_dropWhile_isGap]

/-- The rest of a quoted word, closing quote included. Bracket groups keep their source. -/
def quotedBody : List Char → Except ReadFault Taken
  | [] => .error (.missing .quote)
  | '\\' :: '\n' :: cs =>
    (quotedBody (cs.dropWhile isGap)).map
      (Taken.cover ('\\' :: '\n' :: cs.takeWhile isGap) [' '])
  | '\\' :: c :: cs => (quotedBody cs).map (Taken.cover ['\\', c] ['\\', c])
  | c :: cs =>
    if c = '"' then .ok ⟨[c], [], cs⟩
    else if c = '[' then
      match _h : bracketGroup? (c :: cs) with
      | none => .error (.missing .bracket)
      | some (group, rest) => (quotedBody rest).map (Taken.cover group group)
    else (quotedBody cs).map (Taken.cover [c] [c])
termination_by cs => cs.length
decreasing_by all_goals grind [length_dropWhile_isGap]

/-- The stretch up to the next separator, and how many of its parts are no escapes. A bracket group
is one part. A backslash escapes one unit, so the second half of a pair after it is a part too. -/
def bareBody : List Char → Except ReadFault (Nat × List Char × List Char)
  | [] => .ok (0, [], [])
  | '\\' :: '\n' :: cs => .ok (0, [], '\\' :: '\n' :: cs)
  | '\\' :: c :: cs =>
    (bareBody cs).map fun (parts, span, rest) =>
      (parts + Text.unitCount c - 1, '\\' :: c :: span, rest)
  | c :: cs =>
    if isGap c || c = '\n' || c = ';' then .ok (0, [], c :: cs)
    else if c = '[' then
      match _h : bracketGroup? (c :: cs) with
      | none => .error (.missing .bracket)
      | some (group, rest) =>
        (bareBody rest).map fun (parts, span, rest') => (parts + 1, group ++ span, rest')
    else
      (bareBody cs).map fun (parts, span, rest) =>
        (if c = '\\' then parts else parts + 1, c :: span, rest)
termination_by cs => cs.length
decreasing_by all_goals grind [length_dropWhile_isGap]

/-- A comment, which a joined line continues, and what follows it. -/
def comment : List Char → List Char × List Char
  | [] => ([], [])
  | '\\' :: '\n' :: cs =>
    Script.cover ('\\' :: '\n' :: cs.takeWhile isGap) (comment (cs.dropWhile isGap))
  | c :: cs => if c = '\n' then ([], c :: cs) else Script.cover [c] (comment cs)
termination_by cs => cs.length
decreasing_by all_goals grind [length_dropWhile_isGap]

/-- The word at the start of a text. A bare word whose only part besides escapes is a bracket group
at its start counts as bracketed. -/
def readWord (cs : List Char) : Except ReadFault (WordKind × Taken) :=
  match cs with
  | '{' :: body =>
    match bracedBody 0 body with
    | none => .error (.missing .brace)
    | some t => .ok (.braced, t.cover ['{'] [])
  | '"' :: body => (quotedBody body).map fun t => (.quoted, t.cover ['"'] [])
  | _ =>
    (bareBody cs).map fun (parts, span, rest) =>
      if cs.head? = some '[' && parts = 1 then (.bracketed, ⟨span, inside span, rest⟩)
      else (.bare, ⟨span, span, rest⟩)

theorem bracedBody_append {depth : Nat} {cs : List Char} {t : Taken}
    (h : bracedBody depth cs = some t) : t.span ++ t.rest = cs := by
  fun_induction bracedBody depth cs generalizing t <;>
    grind [Taken.cover, Option.map_eq_some_iff, List.takeWhile_append_dropWhile]

@[grind =] theorem map_eq_ok_iff {ε α β : Type} {f : α → β} {x : Except ε α} {b : β} :
    x.map f = .ok b ↔ ∃ a, x = .ok a ∧ f a = b := by
  cases x <;> simp [Except.map]

theorem quotedBody_append {cs : List Char} {t : Taken} (h : quotedBody cs = .ok t) :
    t.span ++ t.rest = cs := by
  fun_induction quotedBody cs generalizing t <;>
    grind [Taken.cover, List.takeWhile_append_dropWhile]

theorem bareBody_append {cs : List Char} {parts : Nat} {span rest : List Char}
    (h : bareBody cs = .ok (parts, span, rest)) : span ++ rest = cs := by
  fun_induction bareBody cs generalizing parts span rest <;>
    grind

theorem bareBody_ne_nil {cs : List Char} {parts : Nat} {span rest : List Char}
    (h : bareBody cs = .ok (parts, span, rest)) (hs : atSeparator cs = false) : span ≠ [] := by
  fun_induction bareBody cs generalizing parts span rest <;>
    grind [atSeparator, continuation?]

theorem readWord_append {cs : List Char} {kind : WordKind} {t : Taken}
    (h : readWord cs = .ok (kind, t)) : t.span ++ t.rest = cs := by
  unfold readWord at h
  split at h
  · grind [bracedBody_append, Taken.cover]
  · grind [quotedBody_append, Taken.cover]
  · grind [bareBody_append]

theorem readWord_length {cs : List Char} {kind : WordKind} {t : Taken}
    (h : readWord cs = .ok (kind, t)) (hs : atSeparator cs = false) :
    t.rest.length < cs.length := by
  have hne : t.span ≠ [] := by
    unfold readWord at h
    split at h
    · grind [Taken.cover]
    · grind [Taken.cover]
    · grind [bareBody_ne_nil]
  have := List.length_pos_iff.2 hne
  have := congrArg List.length (readWord_append h)
  simp at this; omega

theorem comment_append (cs : List Char) : (comment cs).1 ++ (comment cs).2 = cs := by
  fun_induction comment cs <;> grind [Script.cover, List.takeWhile_append_dropWhile]

theorem comment_ne_nil {cs : List Char} (h : ∀ rest, cs ≠ '\n' :: rest) (hc : cs ≠ []) :
    (comment cs).1 ≠ [] := by
  fun_induction comment cs <;> grind [Script.cover]

theorem comment_length {cs : List Char} (h : ∀ rest, cs ≠ '\n' :: rest) (hc : cs ≠ []) :
    (comment cs).2.length < cs.length := by
  have := List.length_pos_iff.2 (comment_ne_nil h hc)
  have := congrArg List.length (comment_append cs)
  simp at this; omega

/-- The words read so far, latest first, as a command unless there are none. -/
def finish (filename : String) (words : List Word) : List Command :=
  match words.reverse with
  | [] => []
  | head :: args => [⟨filename, head, args⟩]

/-- The commands from a place on, when `words` of the running command are read already. -/
def scan (filename : String) (cur : Cursor) (words : List Word) :
    List Char → Except ReadError (List Command)
  | [] => .ok (finish filename words)
  | c :: cs =>
    if isGap c then scan filename (cur.step c) words cs
    else if c = '\n' || c = ';' then
      (scan filename (cur.step c) [] cs).map (finish filename words ++ ·)
    else if c = '#' then
      if words.isEmpty then
        scan filename (cur.advance (comment (c :: cs)).1) [] (comment (c :: cs)).2
      else .error ⟨.strayComment, cur.location filename⟩
    else match _hj : continuation? (c :: cs) with
      | some (span, rest) => scan filename (cur.advance span) words rest
      | none =>
        match hw : readWord (c :: cs) with
        | .error fault => .error ⟨fault, cur.location filename⟩
        | .ok (kind, t) =>
          let after := cur.advance t.span
          if atSeparator t.rest then
            let word : Word :=
              ⟨kind, String.ofList t.text, cur.line, cur.column, after.column - 1⟩
            scan filename after (word :: words) t.rest
          else
            let closing := if kind = .quoted then Delimiter.quote else .brace
            .error ⟨.extra closing, after.location filename⟩
termination_by cs => cs.length
decreasing_by
  · grind
  · grind
  · exact comment_length (by grind) (by simp)
  · exact continuation?_length _hj
  · exact readWord_length hw (by simp_all [atSeparator])

/-- Reads a script that starts at a line of a file. Empty commands and comments are dropped. -/
def readScript (text filename : String) (line : Position) : Except ReadError (List Command) :=
  scan filename ⟨line, 1⟩ [] text.toList

end RadarTimeline.Script
