import RadarTimeline.Proofs.Script.CrlfSteps

namespace RadarTimeline.Script

variable {filename : String} {cur : Cursor} {words : List Word}
    {cs span text : List Char} {c : Char}
  {kind : WordKind} {t : Taken} {commands : List Command}

/-- The text of a word without carriage returns. -/
def withoutReturns (cs : List Char) : List Char := cs.filter (· ≠ '\r')

/-- A word of the same kind on the same line, with the same text but for carriage returns. -/
structure Word.Alike (w w' : Word) : Prop where
  kind : w'.kind = w.kind
  line : w'.line = w.line
  text : withoutReturns w'.text.toList = withoutReturns w.text.toList

/-- Both scripts are refused, or both are read, with the same number of commands and words that are
alike. -/
def ReadAlike : Except ReadError (List Command) → Except ReadError (List Command) → Prop
  | .ok commands, .ok commands' =>
    List.Forall₂ (fun c c' => List.Forall₂ Word.Alike c.words c'.words) commands commands'
  | .error _, .error _ => True
  | _, _ => False

theorem withoutReturns_crlf (cs : List Char) : withoutReturns (crlf cs) = withoutReturns cs := by
  induction cs with
  | nil => rfl
  | cons c cs ih =>
    by_cases hc : c = '\n'
    · subst hc
      simpa [withoutReturns] using ih
    · rw [crlf_cons hc, withoutReturns, withoutReturns, List.filter_cons, List.filter_cons]
      exact congrArg (fun more => if decide (c ≠ '\r') = true then c :: more else more) ih

theorem alike_crlf (w : Word) : w.Alike w.crlf := by
  refine ⟨rfl, rfl, ?_⟩
  rw [Word.crlf, String.toList_ofList, withoutReturns_crlf]

/-- A word stands on a line or under it. -/
def Word.NotAbove (n : ℤ) (w : Word) : Prop := ∃ m, n ≤ m ∧ w.line = .whole m

section Texts

theorem count_withoutReturns (cs : List Char) : (withoutReturns cs).count '\n' = cs.count '\n' :=
  List.count_filter (by decide)

theorem withoutReturns_append (cs ds : List Char) :
    withoutReturns (cs ++ ds) = withoutReturns cs ++ withoutReturns ds := List.filter_append ..

theorem eq_inside_of_alike (hcovers : Covers kind span text)
    (hkind : kind = .braced ∨ kind = .quoted)
    (htext : withoutReturns (inside (crlf span)) = withoutReturns text) : text = inside span := by
  obtain ⟨first, inner, last, hfirst, hlast, hspan, hjoined⟩ := hcovers.delimited hkind
  have hinside : inside span = inner := by simp [hspan, inside]
  rw [inside_crlf (by simpa [hspan] using hfirst)
    (by simpa [hspan, List.getLast?_cons] using hlast), hinside, withoutReturns_crlf] at htext
  rw [hinside]
  refine hjoined.eq_or_count_lt.resolve_right fun hlt => ?_
  rw [← count_withoutReturns text, ← htext, count_withoutReturns] at hlt
  exact Nat.lt_irrefl _ hlt

theorem continuation?_eq_none (h : ∀ more, cs ≠ '\\' :: '\n' :: more) :
    continuation? cs = none := by
  by_contra hjoin
  obtain ⟨more, heq⟩ := exists_of_joined (Option.isSome_iff_ne_none.2 hjoin)
  exact h more heq

theorem not_atSeparator_joined (cs : List Char) :
    atSeparator (crlf ('\\' :: '\n' :: cs)) = false := by
  rw [crlf_cons (by decide), crlf_newline]
  rfl

/-- A word is alike in both texts only if it holds no joined line and none follows it. -/
theorem apart_of_alike (hread : readWord cs = .ok (kind, t))
    (hrest : atSeparator (crlfWord kind t).rest = true)
    (htext : withoutReturns (crlfWord kind t).text = withoutReturns t.text) :
    (kind = .bare ∨ t.text = inside t.span) ∧ continuation? t.rest = none := by
  have hcovers := (readWord_covers hread).1
  cases kind with
  | bare =>
    refine ⟨.inl rfl, continuation?_eq_none fun more heq => ?_⟩
    have hspan : t.text = t.span := hcovers
    have hlength : withoutReturns (crlf t.span ++ ['\\', '\r']) = withoutReturns t.span := by
      rw [crlfWord, heq, hspan] at htext
      exact htext
    rw [withoutReturns_append, withoutReturns_crlf] at hlength
    cases List.append_right_eq_self.1 hlength
  | bracketed =>
    obtain ⟨hopen, hinside⟩ := hcovers
    refine ⟨.inr hinside, continuation?_eq_none fun more heq => ?_⟩
    obtain ⟨body, hspan⟩ := List.head?_eq_some_iff.1 hopen
    rw [crlfWord, heq, hinside, hspan, crlf_cons (by decide)] at htext
    have hdrop : (crlf body ++ ['\\', '\r']).dropLast = crlf body ++ ['\\'] := by
      rw [List.dropLast_append_of_ne_nil (by simp)]
      rfl
    have hlength : withoutReturns (crlf body ++ ['\\']) = withoutReturns body.dropLast :=
      hdrop ▸ htext
    have hle : (withoutReturns body.dropLast).length ≤ (withoutReturns body).length :=
      ((List.dropLast_sublist body).filter _).length_le
    rw [← hlength, withoutReturns_append, withoutReturns_crlf, List.length_append] at hle
    exact absurd hle (Nat.not_succ_le_self _)
  | braced | quoted =>
    refine ⟨.inr (eq_inside_of_alike hcovers (by simp) htext),
      continuation?_eq_none fun more heq => ?_⟩
    rw [crlfWord, heq, not_atSeparator_joined] at hrest
    cases hrest

end Texts

section Lines

variable {n : ℤ} {commands' : List Command} {words' : List Word}

theorem step_line (h : cur.line = .whole n) (c : Char) :
    (cur.step c).line = .whole (n + [c].count '\n') := by
  rw [Cursor.step]
  split
  · next hc => simp [hc, h, Position.next]
  · next hc => simp [hc, h]

theorem advance_line (h : cur.line = .whole n) (span : List Char) :
    (cur.advance span).line = .whole (n + span.count '\n') := by
  induction span generalizing cur n with
  | nil => simpa [Cursor.advance] using h
  | cons c span ih =>
    change ((cur.step c).advance span).line = _
    rw [ih (step_line h c), Int.add_assoc, ← Int.natCast_add, ← List.count_append]
    rfl

theorem Word.NotAbove.mono {w : Word} {m : ℤ} (h : w.NotAbove m) (hle : n ≤ m) : w.NotAbove n := by
  obtain ⟨l, hl, hline⟩ := h
  exact ⟨l, Int.le_trans hle hl, hline⟩

/-- The words that are read come after those read before, on lines that are not above the place. -/
theorem scan_later (hline : cur.line = .whole n) (h : scan filename cur words cs = .ok commands) :
    ∃ new, commands.flatMap Command.words = words.reverse ++ new ∧
      ∀ w ∈ new, w.NotAbove n := by
  fun_induction scan filename cur words cs generalizing commands n with
  | case1 cur words =>
    cases h
    exact ⟨[], by rw [flatMap_finish, List.append_nil], by simp⟩
  | case2 cur words c cs hgap ih =>
    obtain ⟨new, hnew, hlater⟩ := ih (step_line hline c) h
    exact ⟨new, hnew, fun w hw => (hlater w hw).mono (by omega)⟩
  | case3 cur words c cs hgap hend ih =>
    obtain ⟨more, hmore, rfl⟩ := map_eq_ok_iff.1 h
    obtain ⟨new, hnew, hlater⟩ := ih (step_line hline c) hmore
    refine ⟨new, ?_, fun w hw => (hlater w hw).mono (by omega)⟩
    rw [List.flatMap_append, flatMap_finish, hnew]
    rfl
  | case4 cur words cs hwords _ _ ih =>
    obtain rfl : words = [] := List.isEmpty_iff.1 hwords
    obtain ⟨new, hnew, hlater⟩ := ih (advance_line hline _) h
    exact ⟨new, hnew, fun w hw => (hlater w hw).mono (by omega)⟩
  | case5 => cases h
  | case6 cur words c cs _ _ _ span rest hjoin ih =>
    obtain ⟨new, hnew, hlater⟩ := ih (advance_line hline _) h
    exact ⟨new, hnew, fun w hw => (hlater w hw).mono (by omega)⟩
  | case7 => cases h
  | case8 =>
    rename_i cur words c cs hgap hend hcomment hjoin kind t hread after hrest word ih
    obtain ⟨new, hnew, hlater⟩ := ih (advance_line hline _) h
    have hword : word.NotAbove n := ⟨n, Int.le_refl n, hline⟩
    refine ⟨word :: new, ?_, List.forall_mem_cons.2 ⟨hword, fun w hw =>
      (hlater w hw).mono (by omega)⟩⟩
    rw [hnew, List.reverse_cons, List.append_assoc]
    rfl
  | case9 => cases h

theorem scan_first (hsep : atSeparator (c :: cs) = false) (hcomment : c ≠ '#')
    (hline : cur.line = .whole n) (h : scan filename cur words (c :: cs) = .ok commands) :
    ∃ w new, commands.flatMap Command.words = words.reverse ++ w :: new ∧ w.line = .whole n := by
  obtain ⟨⟨kind, t⟩, hread⟩ : ∃ word, readWord (c :: cs) = .ok word := by
    cases hread : readWord (c :: cs) with
    | error fault =>
      rw [scan_unread hsep hcomment hread] at h
      cases h
    | ok word => exact ⟨word, rfl⟩
  by_cases hrest : atSeparator t.rest = true
  · rw [scan_read hsep hcomment hread hrest] at h
    obtain ⟨new, hnew, -⟩ := scan_later (advance_line hline _) h
    rw [List.reverse_cons, List.append_assoc] at hnew
    exact ⟨_, new, hnew, hline⟩
  · rw [scan_extra hsep hcomment hread (by simpa using hrest)] at h
    cases h

/-- A word stands on a line that the comment goes on over in the text with newlines alone. -/
theorem scanPast_loud {resumed : Bool} (hquiet : quiet resumed cs = false)
    (hline : cur.line = .whole n) (h : scanPast filename cur resumed (crlf cs) = .ok commands) :
    ∃ w new l m, commands.flatMap Command.words = w :: new ∧ w.line = .whole l ∧
      (cur.advance (comment cs).1).line = .whole m ∧ l ≤ m := by
  fun_induction quiet resumed cs generalizing cur n with
  | case1 => cases hquiet
  | case2 cs ih =>
    rw [comment_joined]
    rw [crlf_cons (by decide), crlf_newline, scanPast_cons (by decide) (by simp),
      scanPast_cons (by decide) (by simp), scanPast_newline] at h
    exact ih hquiet (step_line (step_line hline '\\') '\n') h
  | case3 c cs hjoin ih =>
    obtain ⟨hc, hquiet⟩ : c ≠ '\n' ∧ quiet false cs = false := by simpa using hquiet
    rw [comment_cons hc (not_joined hjoin)]
    rw [crlf_cons hc, scanPast_cons hc (.inr (head?_crlf_ne cs))] at h
    exact ih hquiet (step_line hline c) h
  | case4 c cs ih1 ih2 =>
    have hc : c ≠ '\n' := by
      rintro rfl
      cases hquiet
    rw [decide_eq_false hc, Bool.false_or] at hquiet
    rw [crlf_cons hc] at h
    split at hquiet
    · next hskip =>
      have hescape : c ≠ '\\' := by
        rintro rfl
        exact absurd hskip (by decide)
      rw [comment_cons hc (.inl hescape)]
      refine ih1 hquiet (step_line hline c) ?_
      rcases Bool.or_eq_true _ _ ▸ hskip with hgap | hend
      · exact (scan_gap hgap _).symm.trans h
      · rw [← map_finish_nil (scanPast _ _ _ _)]
        exact (scan_end (.inr (of_decide_eq_true hend)) _).symm.trans h
    · next hskip =>
      by_cases hcomment : c = '#'
      · subst hcomment
        rw [comment_cons hc (.inl (by decide))]
        refine ih2 (by simpa using hquiet) (step_line hline '#') ?_
        rw [← h]
        refine Eq.trans ?_ (scan_comment _).symm
        rw [comment_cons hc (.inl (by decide))]
        rfl
      · have hsep : atSeparator (c :: crlf cs) = false := by
          have hnone := continuation?_crlf (c :: cs)
          rw [crlf_cons hc] at hnone
          simp_all [atSeparator]
        obtain ⟨w, new, hwords, hw⟩ := scan_first hsep hcomment hline h
        exact ⟨w, new, n, _, hwords, hw, advance_line hline _, by omega⟩

theorem scan_below (hstop : ∀ c ∈ cs.head?, c = '\n') (hline : cur.line = .whole n)
    (h : scan filename cur [] cs = .ok commands) :
    ∀ w ∈ commands.flatMap Command.words, w.NotAbove (n + 1) := by
  rcases cs with _ | ⟨c, cs⟩
  · rw [scan_nil] at h
    cases h
    simp [finish]
  · obtain rfl : c = '\n' := hstop c rfl
    rw [scan_end (.inl rfl), map_finish_nil] at h
    obtain ⟨new, hnew, hlater⟩ := scan_later (step_line hline '\n') h
    rw [hnew]
    exact hlater

theorem alike_behind {new new' : List Word} (hlength : words'.length = words.length)
    (h : List.Forall₂ Word.Alike (words.reverse ++ new) (words'.reverse ++ new')) :
    List.Forall₂ Word.Alike new new' := by
  have hdrop := List.forall₂_drop words.length h
  have hlength' : words'.reverse.length = words.length := List.length_reverse.trans hlength
  rwa [List.drop_left' List.length_reverse, List.drop_left' hlength'] at hdrop

theorem not_alike_above {w : Word} {new new' : List Word} (hline : w.line = .whole n)
    (hnew : ∀ w ∈ new, w.NotAbove (n + 1)) (h : List.Forall₂ Word.Alike new (w :: new')) :
    False := by
  cases h with
  | cons halike _ =>
    obtain ⟨m, hm, hw⟩ := hnew _ (List.mem_cons_self ..)
    rw [halike.line, hw] at hline
    cases hline
    omega

/-- A script that is accepted is read alike only if no lines of it are joined. -/
theorem unjoined_of_alike (hline : cur.line = .whole n)
    (h : scan filename cur words cs = .ok commands)
    (h' : scan filename cur words' (crlf cs) = .ok commands')
    (hlength : words'.length = words.length)
    (halike : List.Forall₂ Word.Alike (commands.flatMap Command.words)
      (commands'.flatMap Command.words)) :
    unjoined cs = true := by
  -- the induction is on the reader of the text with newlines alone. Both readers have read as many
  -- words at each
  -- place, so that the next words have to be alike; at a joined line they are not
  fun_induction scan filename cur words cs generalizing commands commands' words' n with
  | case1 => rw [unjoined]
  | case2 cur words c cs hgap ih =>
    rw [crlf_cons (ne_of_gap hgap), scan_gap hgap] at h'
    rw [unjoined_skip (by simp [hgap])]
    exact ih (step_line hline c) h h' hlength halike
  | case3 cur words c cs hgap hend ih =>
    rw [scan_crlf_end (by simpa using hend)] at h'
    obtain ⟨more, hmore, rfl⟩ := map_eq_ok_iff.1 h
    obtain ⟨more', hmore', rfl⟩ := map_eq_ok_iff.1 h'
    rw [List.flatMap_append, List.flatMap_append, flatMap_finish, flatMap_finish] at halike
    rw [unjoined_skip (by simpa [hgap] using hend)]
    exact ih (step_line hline c) hmore hmore' rfl (alike_behind hlength halike)
  | case4 cur words cs hwords _ _ ih =>
    obtain rfl : words = [] := List.isEmpty_iff.1 hwords
    obtain rfl : words' = [] := List.length_eq_zero_iff.1 hlength
    have hcrlf : scanPast filename cur false (crlf ('#' :: cs)) = .ok commands' := by
      rw [← h', crlf_cons (by decide)]
      exact (scan_comment _).symm
    have hquiet : quiet false ('#' :: cs) = true := by
      by_contra hloud
      obtain ⟨w, new, l, m, hwords, hw, hm, hle⟩ := scanPast_loud (by simpa using hloud) hline hcrlf
      have hbelow := scan_below (comment_stops _) hm h
      rw [hwords] at halike
      exact not_alike_above hw (fun w hw => (hbelow w hw).mono (by omega)) halike
    rw [scanPast_crlf filename cur false ('#' :: cs) hquiet] at hcrlf
    rw [unjoined_comment, Bool.and_eq_true]
    exact ⟨by simpa [quiet] using hquiet, ih (advance_line hline _) h hcrlf rfl halike⟩
  | case5 => cases h
  | case6 cur words c cs _ _ _ span rest hjoin ih =>
    obtain ⟨more, heq⟩ := exists_of_joined (hjoin ▸ Option.isSome_some)
    obtain ⟨indent, -, hspan⟩ := exists_indent hjoin
    have hsep := not_atSeparator_joined more
    rw [heq] at h'
    rw [crlf_cons (by decide)] at h' hsep
    obtain ⟨new, hnew, hlater⟩ := scan_later (advance_line hline span) h
    obtain ⟨w, new', hnew', hw⟩ := scan_first hsep (by decide) hline h'
    rw [hnew, hnew'] at halike
    have hcount : 1 ≤ span.count '\n' := by simp [hspan]
    have hbelow : ∀ w ∈ new, w.NotAbove (n + 1) := fun w hw => (hlater w hw).mono (by omega)
    exact (not_alike_above hw hbelow (alike_behind hlength halike)).elim
  | case7 => cases h
  | case8 =>
    rename_i cur words c cs hgap hend hcomment hjoin kind t hread after hrest word ih
    have hsep : atSeparator (c :: cs) = false := not_atSeparator hgap hend hjoin
    obtain ⟨hcrlf, hsep'⟩ := crlf_cons_of_not_atSeparator hsep
    have hread' : readWord (c :: crlf cs) = .ok (kind, crlfWord kind t) := by
      rw [← hcrlf, readWord_crlf, hread]
      rfl
    have hrest' : atSeparator (crlfWord kind t).rest = true := by
      by_contra hextra
      rw [hcrlf, scan_extra hsep' hcomment hread' (by simpa using hextra)] at h'
      cases h'
    rw [hcrlf, scan_read hsep' hcomment hread' hrest'] at h'
    have htext : withoutReturns (crlfWord kind t).text = withoutReturns t.text := by
      obtain ⟨new, hnew, -⟩ := scan_later (advance_line hline _) h
      obtain ⟨new', hnew', -⟩ := scan_later (advance_line hline _) h'
      rw [hnew, hnew', List.reverse_cons, List.reverse_cons, List.append_assoc,
        List.append_assoc] at halike
      simpa [word] using (List.forall₂_cons.1 (alike_behind hlength halike)).1.text
    obtain ⟨htext, hnone⟩ := apart_of_alike hread hrest' htext
    have htaken := hread'.symm.trans (readWord_crlf_apart hread hsep htext hnone)
    obtain ⟨-, htaken⟩ := Prod.mk.inj (Except.ok.inj htaken)
    rw [htaken, advance_crlf] at h'
    rw [unjoined_read hsep hcomment hread, hrest, Bool.not_true, Bool.false_or, Bool.and_eq_true]
    exact ⟨by simpa using htext, ih (advance_line hline _) h h' (by simp [hlength]) halike⟩
  | case9 => cases h

end Lines

def crlfText (text : String) : String := String.ofList (crlf text.toList)

theorem readAlike_crlf (x : Except ReadError (List Command)) :
    ReadAlike x (x.map (List.map Command.crlf)) := by
  cases x with
  | error e => trivial
  | ok commands =>
    refine List.forall₂_map_right_iff.2 (List.forall₂_same.2 fun c _ => ?_)
    exact List.forall₂_map_right_iff.2 (List.forall₂_same.2 fun w _ => alike_crlf w)

theorem alike_words {commands' : List Command}
    (h : List.Forall₂ (fun c c' : Command => List.Forall₂ Word.Alike c.words c'.words) commands
      commands') :
    List.Forall₂ Word.Alike (commands.flatMap Command.words) (commands'.flatMap Command.words) := by
  induction h with
  | nil => exact .nil
  | cons hwords _ ih => exact List.rel_append hwords ih

theorem readScript_crlfText (text filename : String) (line : Position) :
    readScript (crlfText text) filename line = scan filename ⟨line, 1⟩ [] (crlf text.toList) := by
  rw [readScript, crlfText, String.toList_ofList]

theorem readAlike_of_unjoined {text : String} (h : unjoined text.toList = true) (filename : String)
    (line : Position) :
    ReadAlike (readScript text filename line) (readScript (crlfText text) filename line) := by
  have hscan := scan_crlf filename ⟨line, 1⟩ [] h
  rw [List.map_nil, ← readScript_crlfText] at hscan
  rw [hscan]
  exact readAlike_crlf _

/-- A script is read alike with such lines if no lines of it are joined, outside of bracket groups
and of comments that are quiet. Of the scripts that are accepted, no others are. -/
theorem readScript_crlf (text filename : String) (line : Position) :
    (unjoined text.toList = true →
      ReadAlike (readScript text filename line) (readScript (crlfText text) filename line)) ∧
    ∀ n commands, line = .whole n → readScript text filename line = .ok commands →
      ReadAlike (readScript text filename line) (readScript (crlfText text) filename line) →
        unjoined text.toList = true := by
  refine ⟨fun h => readAlike_of_unjoined h filename line, fun n commands hline h halike => ?_⟩
  rw [readScript_crlfText, h] at halike
  cases h' : scan filename ⟨line, 1⟩ [] (crlf text.toList) with
  | error e =>
    rw [h'] at halike
    exact halike.elim
  | ok commands' =>
    rw [h'] at halike
    exact unjoined_of_alike hline h h' rfl (alike_words halike)

/-- A script with lines in a comment that is quiet, in braces, in quotes, and joined in a bracket
group. -/
def apartScript : String :=
  "# start \\\n ; # of it\nset s \x7b\n  a\x7d \"b\n\"; list [c \\\n d]"

def apartCommands : List Command :=
  [⟨"Console", ⟨.bare, "set", 3, 1, 3⟩, [⟨.bare, "s", 3, 5, 5⟩, ⟨.braced, "\n  a", 3, 7, 4⟩,
      ⟨.quoted, "b\n", 4, 6, 1⟩]⟩,
    ⟨"Console", ⟨.bare, "list", 5, 4, 7⟩, [⟨.bracketed, "c \\\n d", 5, 9, 3⟩]⟩]

theorem apartScript_alike :
    readScript apartScript "Console" 1 = .ok apartCommands ∧ unjoined apartScript.toList = true ∧
      ReadAlike (readScript apartScript "Console" 1)
        (readScript (crlfText apartScript) "Console" 1) := by
  have hread : readScript apartScript "Console" 1 = .ok apartCommands :=
    ok_of_toOption (by decide +kernel)
  obtain ⟨halike, hunjoined⟩ := readScript_crlf apartScript "Console" 1
  have h := halike (by decide +kernel)
  exact ⟨hread, hunjoined 1 apartCommands rfl hread h, h⟩

def joinedLine : String := "set x \\\n    5"

def joinedCommand : Command :=
  ⟨"Console", ⟨.bare, "set", 1, 1, 3⟩, [⟨.bare, "x", 1, 5, 5⟩, ⟨.bare, "5", 2, 5, 5⟩]⟩

def splitCommands : List Command :=
  [⟨"Console", ⟨.bare, "set", 1, 1, 3⟩, [⟨.bare, "x", 1, 5, 5⟩, ⟨.bare, "\\\r", 1, 7, 8⟩]⟩,
    ⟨"Console", ⟨.bare, "5", 2, 5, 5⟩, []⟩]

/-- With a carriage return at the end of the first line, the second is a command of its own. -/
theorem joinedLine_splits :
    readScript joinedLine "Console" 1 = .ok [joinedCommand] ∧
      readScript (crlfText joinedLine) "Console" 1 = .ok splitCommands ∧
      ¬ReadAlike (readScript joinedLine "Console" 1)
        (readScript (crlfText joinedLine) "Console" 1) := by
  have hjoined : readScript joinedLine "Console" 1 = .ok [joinedCommand] :=
    ok_of_toOption (by decide +kernel)
  have hsplit : readScript (crlfText joinedLine) "Console" 1 = .ok splitCommands :=
    ok_of_toOption (by decide +kernel)
  refine ⟨hjoined, hsplit, fun h => ?_⟩
  rw [hjoined, hsplit] at h
  exact absurd (List.Forall₂.length_eq h) (by decide)

end RadarTimeline.Script
