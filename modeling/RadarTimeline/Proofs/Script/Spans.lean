import RadarTimeline.Proofs.Script.WordText
import Mathlib.Algebra.GroupWithZero.Nat
import Mathlib.Data.List.SplitBy

namespace RadarTimeline.Script

def hasBreak (isBreak : Char → Bool) : List Char → Bool
  | [] => false
  | '\\' :: '\n' :: cs => hasBreak isBreak cs
  | c :: cs => isBreak c || hasBreak isBreak cs

def endsLine (c : Char) : Bool := c = '\n'

def endsCommand (c : Char) : Bool := c = '\n' || c = ';'

/-- A gap in front of the rest of a source. It is made of blanks, ends of commands, joined line
breaks and comments, which run up to the end of their line and begin only where a command can begin
(`fresh`). -/
inductive Skips (rest : List Char) : Bool → List Char → Prop
  | nil {fresh : Bool} : Skips rest fresh []
  | blank {fresh : Bool} {c : Char} {gap : List Char} (hc : isGap c = true)
    (h : Skips rest fresh gap) :
      Skips rest fresh (c :: gap)
  | ended {fresh : Bool} {c : Char} {gap : List Char} (hc : endsCommand c = true)
      (h : Skips rest true gap) : Skips rest fresh (c :: gap)
  | joined {fresh : Bool} {indent gap : List Char} (hi : ∀ c ∈ indent, isGap c = true)
      (h : Skips rest fresh gap) : Skips rest fresh ('\\' :: '\n' :: (indent ++ gap))
  | comment {body gap : List Char} (hb : hasBreak endsLine body = false)
      (stop : ∀ c ∈ (gap ++ rest).head?, c = '\n') (h : Skips rest true gap) :
      Skips rest true ('#' :: (body ++ gap))

def lineAt (line : Position) (before : List Char) : Position :=
  Position.next^[before.count '\n'] line

def columnAt (before : List Char) : ℤ :=
  1 + ((before.reverse.takeWhile (· ≠ '\n')).map Text.unitCount).sum

/-- A word of the span that follows a stretch of source: its text is that of the span, and it has
the line and the column of the first character and the column of the last unit. -/
structure Placed (line : Position) (before span : List Char) (w : Word) : Prop where
  text : Covers w.kind span w.text.toList
  line : w.line = lineAt line before
  first : w.first = columnAt before
  last : ∃ init c, span = init ++ [c] ∧ c ≠ '\n' ∧
    w.last = columnAt (before ++ init) + Text.unitCount c - 1

/-- A word with its span and the gap in front of it. -/
structure Spot where
  gap : List Char
  span : List Char
  word : Word

/-- The source after a stretch `before` is laid out in the gaps and spans of words. -/
inductive Laid (line : Position) : List Char → Bool → List Char → List Spot → Prop
  | tail {before gap : List Char} {fresh : Bool} (skips : Skips [] fresh gap) :
    Laid line before fresh gap []
  | word {before gap span rest : List Char} {fresh : Bool} {w : Word} {spots : List Spot}
      (skips : Skips (span ++ rest) fresh gap) (placed : Placed line (before ++ gap) span w)
      (apart : atSeparator rest = true)
      (next : Laid line (before ++ gap ++ span) false rest spots) :
      Laid line before fresh (gap ++ (span ++ rest)) (⟨gap, span, w⟩ :: spots)

/-- The words read so far, as the words of a command unless there are none. -/
def closed (running : List Word) : List (List Word) := if running = [] then [] else [running]

def grouped (running : List Word) : List Spot → List (List Word)
  | [] => closed running
  | s :: spots =>
    if hasBreak endsCommand s.gap then closed running ++ grouped [s.word] spots
    else grouped (running ++ [s.word]) spots

/-- The word of a spot is what its span is read as in front of some source. -/
def Spot.IsRead (s : Spot) : Prop :=
  ∃ rest, readWord (s.span ++ rest) = .ok (s.word.kind, ⟨s.span, s.word.text.toList, rest⟩)

def widen (pre : List Char) : List Spot → List Spot
  | [] => []
  | s :: spots => { s with gap := pre ++ s.gap } :: spots

variable {line : Position} {before pre cs rest span : List Char} {fresh fresh' : Bool}
    {spots : List Spot}
  {c : Char} {running : List Word}

theorem grouped_nil_cons (s : Spot) (spots : List Spot) :
    grouped [] (s :: spots) = grouped [s.word] spots := by
  rw [grouped]
  split_ifs <;> rfl

theorem hasBreak_cons (isBreak : Char → Bool) (h : c ≠ '\\') (cs : List Char) :
    hasBreak isBreak (c :: cs) = (isBreak c || hasBreak isBreak cs) := by
  rw [hasBreak]
  simp [h]

theorem isGap_ne {c : Char} (h : isGap c = true) : c ≠ '\\' ∧ endsCommand c = false := by
  have hc : c = ' ' ∨ c = '\t' ∨ c = '\r' := by simpa [isGap, or_assoc] using h
  rcases hc with rfl | rfl | rfl <;> exact ⟨by decide, by decide⟩

theorem hasBreak_gaps {isBreak : Char → Bool}
    (hbreak : ∀ c, endsCommand c = false → isBreak c = false)
    {indent : List Char} (h : ∀ c ∈ indent, isGap c = true) (cs : List Char) :
    hasBreak isBreak (indent ++ cs) = hasBreak isBreak cs := by
  induction indent with
  | nil => rfl
  | cons c indent ih =>
    obtain ⟨hc, hindent⟩ := List.forall_mem_cons.1 h
    obtain ⟨hescape, hend⟩ := isGap_ne hc
    rw [List.cons_append, hasBreak_cons _ hescape, hbreak c hend, Bool.false_or, ih hindent]

theorem isGap_takeWhile (cs : List Char) : ∀ c ∈ cs.takeWhile isGap, isGap c = true :=
  List.all_eq_true.1 List.all_takeWhile

theorem grouped_widen (h : ∀ gap, hasBreak endsCommand (pre ++ gap) = hasBreak endsCommand gap) :
    grouped running (widen pre spots) = grouped running spots := by
  cases spots with
  | nil => rfl
  | cons s spots => rw [widen, grouped, grouped, h]

theorem grouped_widen_break (h : ∀ gap, hasBreak endsCommand (pre ++ gap) = true) :
    grouped running (widen pre spots) = closed running ++ grouped [] spots := by
  cases spots with
  | nil => simp [widen, grouped, closed]
  | cons s spots => rw [widen, grouped, if_pos (h _), grouped_nil_cons]

theorem grouped_widen_nil : grouped [] (widen pre spots) = grouped [] spots := by
  cases spots with
  | nil => rfl
  | cons s spots => rw [widen, grouped_nil_cons, grouped_nil_cons]

theorem Laid.widen (h : Laid line (before ++ pre) fresh' cs spots)
    (hpre : ∀ rest gap, gap ++ rest = cs → Skips rest fresh' gap → Skips rest fresh (pre ++ gap)) :
    Laid line before fresh (pre ++ cs) (widen pre spots) := by
  cases h with
  | tail skips => exact .tail (hpre [] cs (List.append_nil cs) skips)
  | @word _ gap span rest _ w spots skips placed apart next =>
    rw [← List.append_assoc]
    refine .word (hpre _ gap rfl skips) ?_ apart ?_
    · rwa [← List.append_assoc]
    · rwa [← List.append_assoc]

theorem isRead_widen (h : ∀ s ∈ spots, s.IsRead) : ∀ s ∈ widen pre spots, s.IsRead := by
  cases spots with
  | nil => exact h
  | cons s spots =>
    obtain ⟨hs, hspots⟩ := List.forall_mem_cons.1 h
    exact List.forall_mem_cons.2 ⟨hs, hspots⟩

theorem advance_append (cur : Cursor) (a b : List Char) :
    cur.advance (a ++ b) = (cur.advance a).advance b :=
  List.foldl_append

theorem advance_eq (line : Position) (before : List Char) :
    (⟨line, 1⟩ : Cursor).advance before = ⟨lineAt line before, columnAt before⟩ := by
  induction before using List.reverseRecOn with
  | nil => rfl
  | append_singleton before c ih =>
    rw [advance_append, ih]
    change Cursor.step _ c = _
    rw [Cursor.step]
    split_ifs with hc
    · subst hc
      simp [lineAt, columnAt, Function.iterate_succ_apply']
    · simp [lineAt, columnAt, hc]
      omega


theorem exists_indent (h : continuation? cs = some (span, rest)) :
    ∃ indent, (∀ c ∈ indent, isGap c = true) ∧ span = '\\' :: '\n' :: indent := by
  unfold continuation? at h
  split at h
  · next more =>
    cases h
    exact ⟨_, isGap_takeWhile more, rfl⟩
  · cases h

theorem endsLine_of_endsCommand {c : Char} (h : endsCommand c = false) : endsLine c = false :=
  (Bool.or_eq_false_iff.1 h).1

/-- A comment holds no end of a line that is not joined. -/
theorem hasBreak_comment (cs : List Char) : hasBreak endsLine (comment cs).1 = false := by
  fun_induction comment cs with
  | case1 => rfl
  | case2 cs ih =>
    change hasBreak endsLine ('\\' :: '\n' :: (cs.takeWhile isGap ++ _)) = false
    rw [hasBreak, hasBreak_gaps (fun _ => endsLine_of_endsCommand) (isGap_takeWhile cs), ih]
  | case3 => rfl
  | case4 c cs hjoin hc ih =>
    change hasBreak endsLine (c :: (comment cs).1) = false
    rw [hasBreak, ih]
    · simp [endsLine, hc]
    · -- a backslash in front of the rest joins nothing, since it joined nothing in the source
      rintro more rfl hmore
      have happend := comment_append cs
      rw [hmore] at happend
      exact hjoin _ rfl happend.symm

theorem comment_stops (cs : List Char) : ∀ c ∈ (comment cs).2.head?, c = '\n' := by
  fun_induction comment cs with
  | case1 => simp
  | case2 cs ih => exact ih
  | case3 cs =>
    intro c hc
    cases hc
    rfl
  | case4 c cs hjoin hc ih => exact ih

theorem skips_comment (cs : List Char) : ∃ body, (comment ('#' :: cs)).1 = '#' :: body ∧
    ∀ rest gap, gap ++ rest = (comment ('#' :: cs)).2 → Skips rest true gap →
      Skips rest true ('#' :: (body ++ gap)) := by
  have hcomment : comment ('#' :: cs) = cover ['#'] (comment cs) := by
    rw [comment, if_neg (by decide)]
    simp
  refine ⟨(comment cs).1, by rw [hcomment]; rfl, fun rest gap hgap h => ?_⟩
  refine .comment (hasBreak_comment cs) ?_ h
  rw [hgap, hcomment]
  exact comment_stops cs

theorem finish_words (filename : String) (words : List Word) :
    (finish filename words).map Command.words = closed words.reverse ∧
      ∀ c ∈ finish filename words, c.filename = filename := by
  unfold finish closed
  cases words.reverse <;> simp [Command.words]

theorem placed_of_readWord {cur : Cursor} {kind : WordKind} {t : Taken}
    (hcur : cur = (⟨line, 1⟩ : Cursor).advance before) (hread : readWord cs = .ok (kind, t))
    (hsep : atSeparator cs = false) :
    Placed line before t.span
      ⟨kind, String.ofList t.text, cur.line, cur.column, (cur.advance t.span).column - 1⟩ := by
  obtain ⟨hcovers, hlast⟩ := readWord_covers hread
  obtain ⟨init, c, hspan⟩ : ∃ init c, t.span = init ++ [c] := by
    have hlength := readWord_length hread hsep
    rw [← readWord_append hread, List.length_append] at hlength
    exact (List.eq_nil_or_concat' t.span).resolve_left fun hnil => by simp [hnil] at hlength
  have hline : c ≠ '\n' := by
    rw [hspan, List.getLast?_concat] at hlast
    exact fun hc => hlast (congrArg some hc)
  have hafter : (cur.advance t.span).column = columnAt (before ++ init) + Text.unitCount c := by
    rw [hcur, hspan, ← advance_append, ← List.append_assoc, advance_append, advance_eq]
    change (Cursor.step _ c).column = _
    rw [Cursor.step, if_neg hline]
  rw [advance_eq] at hcur
  refine ⟨?_, by rw [hcur], by rw [hcur], init, c, hspan, hline, by rw [hafter]⟩
  rw [String.toList_ofList]
  exact hcovers

/-- What is read from a place on is laid out there, span by span as the words are read, and the
words go on with those read before. -/
theorem scan_spots {filename : String} {cur : Cursor} {words : List Word} {commands : List Command}
    (hcur : cur = (⟨line, 1⟩ : Cursor).advance before)
    (h : scan filename cur words cs = .ok commands) :
    ∃ spots, (Laid line before words.isEmpty cs spots ∧ ∀ s ∈ spots, s.IsRead) ∧
      commands.map Command.words = grouped words.reverse spots ∧
      ∀ c ∈ commands, c.filename = filename := by
  have hnext : ∀ {cur before}, cur = (⟨line, 1⟩ : Cursor).advance before →
      ∀ pre, cur.advance pre = (⟨line, 1⟩ : Cursor).advance (before ++ pre) := by
    rintro _ before rfl pre
    rw [advance_append]
  -- what the scanner skips goes in front of the first gap of what it reads after that
  fun_induction scan filename cur words cs generalizing before commands with
  | case1 cur words =>
    cases h
    exact ⟨[], ⟨.tail .nil, by simp⟩, finish_words filename words⟩
  | case2 cur words c cs hgap ih =>
    obtain ⟨spots, ⟨hlaid, hread⟩, hwords, hfile⟩ := ih (hnext hcur [c]) h
    refine ⟨widen [c] spots, ⟨hlaid.widen fun rest gap _ => .blank hgap, isRead_widen hread⟩, ?_,
      hfile⟩
    rw [hwords, grouped_widen (hasBreak_gaps (fun _ => id) (by simpa using hgap))]
  | case3 cur words c cs hgap hend ih =>
    obtain ⟨more, hmore, rfl⟩ := map_eq_ok_iff.1 h
    obtain ⟨spots, ⟨hlaid, hread⟩, hwords, hfile⟩ := ih (hnext hcur [c]) hmore
    obtain ⟨hfirst, hfile'⟩ := finish_words filename words
    refine ⟨widen [c] spots, ⟨hlaid.widen fun rest gap _ => .ended hend, isRead_widen hread⟩, ?_,
      ?_⟩
    · rw [List.map_append, hfirst, hwords, grouped_widen_break]
      · rfl
      · intro gap
        rw [List.singleton_append, hasBreak_cons _ (by rintro rfl; simp at hend)]
        simp [show endsCommand c = true from hend]
    · exact fun c hc => (List.mem_append.1 hc).elim (hfile' c) (hfile c)
  | case4 cur words cs hnone hgap hend ih =>
    obtain rfl : words = [] := List.isEmpty_iff.1 hnone
    obtain ⟨spots, ⟨hlaid, hread⟩, hwords, hfile⟩ := ih (hnext hcur _) h
    obtain ⟨body, hbody, hskips⟩ := skips_comment cs
    refine ⟨widen (comment ('#' :: cs)).1 spots, ⟨?_, isRead_widen hread⟩,
      hwords.trans grouped_widen_nil.symm, hfile⟩
    have hwiden : Laid line before true ((comment ('#' :: cs)).1 ++ (comment ('#' :: cs)).2) _ :=
      hlaid.widen fun rest gap hgap h => hbody ▸ hskips rest gap hgap h
    rwa [comment_append] at hwiden
  | case5 => cases h
  | case6 cur words c cs _ _ _ span rest hjoin ih =>
    obtain ⟨spots, ⟨hlaid, hread⟩, hwords, hfile⟩ := ih (hnext hcur span) h
    obtain ⟨indent, hindent, rfl⟩ := exists_indent hjoin
    refine ⟨widen ('\\' :: '\n' :: indent) spots, ⟨?_, isRead_widen hread⟩, ?_, hfile⟩
    · rw [← continuation?_append hjoin]
      exact hlaid.widen fun rest gap _ => .joined hindent
    · rw [hwords, grouped_widen]
      intro gap
      rw [List.cons_append, List.cons_append, hasBreak, hasBreak_gaps (fun _ => id) hindent]
  | case7 => cases h
  | case8 =>
    rename_i cur words c cs hgap hend hcomment hjoin kind t hword after hsep word ih
    obtain ⟨spots, ⟨hlaid, hread⟩, hwords, hfile⟩ := ih (hnext hcur t.span) h
    have hstart : atSeparator (c :: cs) = false := by simp_all [atSeparator]
    have hplaced : Placed line before t.span word := placed_of_readWord hcur hword hstart
    have hhere : Spot.IsRead ⟨[], t.span, word⟩ := by
      refine ⟨t.rest, ?_⟩
      rw [readWord_append hword, hword, String.toList_ofList]
    refine ⟨⟨[], t.span, word⟩ :: spots, ⟨?_, List.forall_mem_cons.2 ⟨hhere, hread⟩⟩, ?_, hfile⟩
    · rw [← readWord_append hword]
      rw [← List.append_nil before] at hplaced hlaid
      have hgap : Skips (t.span ++ t.rest) words.isEmpty [] := .nil
      exact .word hgap hplaced hsep hlaid
    · rw [hwords, List.reverse_cons, grouped, if_neg (by simp [hasBreak])]
  | case9 => cases h

theorem scan_laid {filename : String} {cur : Cursor} {words : List Word} {commands : List Command}
    (hcur : cur = (⟨line, 1⟩ : Cursor).advance before)
    (h : scan filename cur words cs = .ok commands) :
    ∃ spots, Laid line before words.isEmpty cs spots ∧
      commands.map Command.words = grouped words.reverse spots ∧
      ∀ c ∈ commands, c.filename = filename := by
  obtain ⟨spots, ⟨hlaid, -⟩, hwords⟩ := scan_spots hcur h
  exact ⟨spots, hlaid, hwords⟩

theorem splitBy_loop_words (s : Spot) (run : List Spot) (runs : List (List Spot))
    (spots : List Spot) :
    (List.splitBy.loop (fun _ s => !hasBreak endsCommand s.gap) spots s run runs).map
      (List.map Spot.word) =
      runs.reverse.map (List.map Spot.word) ++ grouped
        ((run.reverse ++ [s]).map Spot.word) spots := by
  induction spots generalizing s run runs with
  | nil => simp [List.splitBy.loop, grouped, closed]
  | cons t spots ih =>
    rw [List.splitBy.loop, grouped]
    cases hasBreak endsCommand t.gap with
    | true => simp [ih, closed]
    | false => simp [ih]

theorem grouped_eq_splitBy (spots : List Spot) :
    grouped [] spots =
      (spots.splitBy fun _ s => !hasBreak endsCommand s.gap).map (List.map Spot.word) := by
  cases spots with
  | nil => rfl
  | cons s spots => rw [grouped_nil_cons, List.splitBy, splitBy_loop_words]; rfl

/-- A script that can be read is laid out in the spans of its words, in order, with gaps between
them. The words of a command are those between whose spans no command ends. -/
theorem readScript_spans {text filename : String} {commands : List Command}
    (h : readScript text filename line = .ok commands) :
    ∃ spots, Laid line [] true text.toList spots ∧
      commands.map Command.words =
        (spots.splitBy fun _ s => !hasBreak endsCommand s.gap).map (List.map Spot.word) ∧
      ∀ c ∈ commands, c.filename = filename := by
  have hstart : (⟨line, 1⟩ : Cursor) = (⟨line, 1⟩ : Cursor).advance [] := rfl
  obtain ⟨spots, hlaid, hwords, hfile⟩ := scan_laid hstart h
  exact ⟨spots, hlaid, hwords.trans (grouped_eq_splitBy spots), hfile⟩

/-- Two commands with words of every kind, over lines that are joined in a gap, in a quoted word, in
its bracket group and in a braced word. -/
def joinedScript : String := "set a \\\n  \"b [c\\\n d]\\\n e\"; # f\n\x7bg\\\n h\x7d [i]"

def joinedCommands : List Command :=
  [⟨"a.tcl", ⟨.bare, "set", 3, 1, 3⟩, [⟨.bare, "a", 3, 5, 5⟩, ⟨.quoted, "b [c\\\n d] e", 4, 3, 3⟩]⟩,
    ⟨"a.tcl", ⟨.braced, "g h", 7, 1, 3⟩, [⟨.bracketed, "i", 8, 5, 7⟩]⟩]

theorem joinedScript_spans : readScript joinedScript "a.tcl" 3 = .ok joinedCommands ∧
    ∃ spots, Laid 3 [] true joinedScript.toList spots ∧
      joinedCommands.map Command.words =
        (spots.splitBy fun _ s => !hasBreak endsCommand s.gap).map (List.map Spot.word) ∧
      ∀ c ∈ joinedCommands, c.filename = "a.tcl" := by
  have h : readScript joinedScript "a.tcl" 3 = .ok joinedCommands := by
    have hread : (readScript joinedScript "a.tcl" 3).toOption = some joinedCommands := by
      decide +kernel
    cases hr : readScript joinedScript "a.tcl" 3 <;> simp_all [Except.toOption]
  exact ⟨h, readScript_spans h⟩

end RadarTimeline.Script
