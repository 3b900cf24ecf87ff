import RadarTimeline.Proofs.Script.ListWords
import RadarTimeline.Proofs.Script.WordKinds

namespace RadarTimeline.Script

def Word.content (w : Word) : WordKind × String := (w.kind, w.text)

def spaced (ws : List Word) : List Char := ws.flatMap fun w => ' ' :: w.source.toList

/-- A word comes back from what it is written as when some source follows. -/
structure Word.Returns (w : Word) (more : List Char) : Prop where
  opens : ∃ c cs, w.source.toList = c :: cs ∧ c ≠ '#'
  read : readWord (w.source.toList ++ more) = .ok (w.kind, ⟨w.source.toList, w.text.toList, more⟩)

/-- Words come back in front of any separator, the last one in front of the end at least: there it
may end with a backslash that escapes nothing. -/
def Return (ws : List Word) : Prop :=
  ∀ done w todo, ws = done ++ w :: todo → w.kind ≠ .bracketed →
    ∀ more, atSeparator more = true → (todo = [] → more = []) → w.Returns more

def Word.width (w : Word) : ℕ := w.text.toList.length + if w.kind = .bare then 0 else 2

variable {filename : String} {cur : Cursor} {words ws : List Word}
    {cs span rest more text : List Char}
  {c : Char} {kind : WordKind} {t : Taken} {w : Word} {commands : List Command} {parts : ℕ}
    {line : Position}

section Bodies

/-- The text of a braced word has its lines joined and its braces matched. -/
theorem balanced_of_bracedBody_text {depth : ℕ} (h : bracedBody depth cs = some t) :
    balanced depth t.text = true := by
  fun_induction bracedBody depth cs generalizing t with
  | case1 => cases h
  | case2 depth cs ih =>
    obtain ⟨t, ht, rfl⟩ := Option.map_eq_some_iff.1 h
    simpa [Taken.cover, balanced] using ih ht
  | case3 depth c cs hc ih =>
    obtain ⟨t, ht, rfl⟩ := Option.map_eq_some_iff.1 h
    have hline : c ≠ '\n' := hc
    simpa [Taken.cover, balanced, hline] using ih ht
  | case4 =>
    cases h
    rfl
  | case5 _ _ _ _ ih =>
    obtain ⟨t, ht, rfl⟩ := Option.map_eq_some_iff.1 h
    simpa [Taken.cover, balanced] using ih ht
  | case6 depth c cs _ hescape hclose ih =>
    obtain ⟨t, ht, rfl⟩ := Option.map_eq_some_iff.1 h
    have hne : c ≠ '\\' := Expr.ne_backslash hescape (by rw [bracedBody]) ht
    have htext := ih ht
    change balanced depth (c :: t.text) = true
    by_cases hopen : c = '{'
    · subst hopen
      rwa [balanced]
    · rw [dif_neg hopen] at htext
      rw [balanced] <;> simp_all

theorem quotedBody_cons (hescape : c ≠ '\\') (hclose : c ≠ '"') (hopen : c ≠ '[') (cs : List Char) :
    quotedBody (c :: cs) = (quotedBody cs).map (Taken.cover [c] [c]) := by
  rw [quotedBody, if_neg hclose, if_neg hopen] <;> simp [hescape]

theorem quotedBody_escape (h : c ≠ '\n') (cs : List Char) :
    quotedBody ('\\' :: c :: cs) = (quotedBody cs).map (Taken.cover ['\\', c] ['\\', c]) := by
  rw [quotedBody]
  exact h

theorem quotedBody_group (h : bracketGroup? ('[' :: cs) = some (span, rest)) :
    quotedBody ('[' :: cs) = (quotedBody rest).map (Taken.cover span span) := by
  rw [quotedBody, if_neg (by decide), if_pos rfl]
  · split
    · next heq => rw [h] at heq; cases heq
    · next heq =>
      rw [h] at heq
      cases heq
      rfl
  all_goals simp

theorem bracketGroup?_again (h : bracketGroup? ('[' :: cs) = some (span, rest)) (more : List Char) :
    ∃ body, span = '[' :: body ∧ bracketGroup? ('[' :: (body ++ more)) = some (span, more) := by
  obtain ⟨c, body, rfl⟩ := List.exists_cons_of_ne_nil (bracketGroup?_ne_nil h)
  obtain ⟨rfl, -⟩ := List.cons.inj (bracketGroup?_append h)
  exact ⟨body, rfl, Expr.closeBracket?_append_right (closeBracket?_self h) more⟩

/-- The text of a quoted word is read as it is. -/
theorem quotedBody_text (h : quotedBody cs = .ok t) (more : List Char) :
    quotedBody (t.text ++ '"' :: more) = .ok ⟨t.text ++ ['"'], t.text, more⟩ := by
  fun_induction quotedBody cs generalizing t with
  | case1 => cases h
  | case2 cs ih =>
    obtain ⟨t, ht, rfl⟩ := map_eq_ok_iff.1 h
    change quotedBody (' ' :: (t.text ++ _)) = _
    rw [quotedBody_cons (by decide) (by decide) (by decide), ih ht]
    rfl
  | case3 c cs hc ih =>
    obtain ⟨t, ht, rfl⟩ := map_eq_ok_iff.1 h
    change quotedBody ('\\' :: c :: (t.text ++ _)) = _
    rw [quotedBody_escape hc, ih ht]
    rfl
  | case4 =>
    cases h
    rw [List.nil_append, quotedBody, if_pos rfl]
    · rfl
    all_goals simp
  | case5 => cases h
  | case6 cs group rest _ _ _ hgroup ih =>
    obtain ⟨t, ht, rfl⟩ := map_eq_ok_iff.1 h
    obtain ⟨body, rfl, hagain⟩ := bracketGroup?_again hgroup (t.text ++ '"' :: more)
    change quotedBody ('[' :: (body ++ t.text) ++ _) = _
    rw [List.cons_append, List.append_assoc, quotedBody_group hagain, ih ht]
    simp [Except.map, Taken.cover]
  | case7 c cs _ hescape hclose hopen ih =>
    obtain ⟨t, ht, rfl⟩ := map_eq_ok_iff.1 h
    have hne : c ≠ '\\' := by
      rintro rfl
      cases cs with
      | nil =>
        rw [quotedBody] at ht
        cases ht
      | cons d ds => exact hescape d ds rfl rfl
    change quotedBody (c :: (t.text ++ _)) = _
    rw [quotedBody_cons hne hclose hopen, ih ht]
    rfl

/-- A bare stretch is read again in front of any separator. A backslash that escapes nothing stands
at the end of the source, and has to stand there again. -/
theorem bareBody_again (h : bareBody cs = .ok (parts, span, rest)) (hmore : atSeparator more = true)
    (hend : rest = [] → more = []) : bareBody (span ++ more) = .ok (parts, span, more) := by
  fun_induction bareBody cs generalizing parts span rest with
  | case1 | case2 | case4 =>
    cases h
    exact bareBody_separator hmore
  | case3 c cs hc ih =>
    obtain ⟨⟨parts, span, rest⟩, hbody, heq⟩ := map_eq_ok_iff.1 h
    cases heq
    rw [List.cons_append, List.cons_append, bareBody, ih hbody hend]
    · rfl
    · exact hc
  | case5 => cases h
  | case6 cs group rest _ _ _ hgroup ih =>
    obtain ⟨⟨parts, span, rest⟩, hbody, heq⟩ := map_eq_ok_iff.1 h
    cases heq
    obtain ⟨body, rfl, hagain⟩ := bracketGroup?_again hgroup (span ++ more)
    rw [List.append_assoc, List.cons_append, bareBody, if_neg (by decide), if_pos rfl]
    · split
      · next hnone => rw [hagain] at hnone; cases hnone
      · next hsome =>
        rw [hagain] at hsome
        cases hsome
        rw [ih hbody hend]
        rfl
    all_goals simp
  | case7 c cs _ hescape hsep hopen ih =>
    obtain ⟨⟨parts, span, rest⟩, hbody, heq⟩ := map_eq_ok_iff.1 h
    cases heq
    have hbefore : ∀ d ds, c = '\\' → span ++ more = d :: ds → False := by
      rintro d ds rfl hcons
      cases cs with
      | nil =>
        rw [bareBody] at hbody
        cases hbody
        rw [hend rfl] at hcons
        cases hcons
      | cons e es => exact hescape e es rfl rfl
    rw [List.cons_append, bareBody, if_neg hsep, if_neg hopen, ih hbody hend]
    · rfl
    · exact fun ds hc => hbefore '\n' ds hc
    · exact hbefore

end Bodies

section Words

theorem toList_source (hbraced : w.kind = .braced → text = '{' :: (w.text.toList ++ ['}']))
    (hquoted : w.kind = .quoted → text = '"' :: (w.text.toList ++ ['"']))
    (hbare : w.kind = .bare → text = w.text.toList) (hkind : w.kind ≠ .bracketed) :
    w.source.toList = text := by
  unfold Word.source
  split
  · next h => simp [hquoted h]
  · next h => simp [hbraced h]
  · next h => exact (hbare h).symm
  · next h => exact absurd h hkind

theorem bracedBody_text {depth : ℕ} (h : bracedBody depth cs = some t) (more : List Char) :
    bracedBody depth (t.text ++ '}' :: more) = some ⟨t.text ++ ['}'], t.text, more⟩ := by
  obtain ⟨span, hbody⟩ := bracedBody_balanced (balanced_of_bracedBody_text h) more
  have happend : span ++ more = t.text ++ ['}'] ++ more := by
    rw [bracedBody_append hbody, List.append_assoc, List.singleton_append]
  rw [hbody, List.append_cancel_right happend]

/-- A word that is read where it begins is read again. -/
theorem returns_of_readWord (hread : readWord (c :: cs) = .ok (kind, t))
    (hsep : atSeparator (c :: cs) = false) (hcomment : c ≠ '#') (hkind : kind ≠ .bracketed)
    (hmore : atSeparator more = true) (hend : t.rest = [] → more = []) (hw : w.kind = kind)
    (htext : w.text.toList = t.text) : w.Returns more := by
  unfold readWord at hread
  split at hread
  · split at hread
    · cases hread
    · next t ht =>
      cases hread
      have hsource : w.source.toList = '{' :: (w.text.toList ++ ['}']) :=
        toList_source (fun _ => rfl) (by simp [hw]) (by simp [hw]) (by simp [hw])
      have htext : w.text.toList = t.text := htext
      refine ⟨⟨_, _, hsource, by decide⟩, ?_⟩
      rw [hsource, hw, htext, List.cons_append, List.append_assoc, List.singleton_append, readWord,
        bracedBody_text ht more]
      rfl
  · obtain ⟨t, ht, heq⟩ := map_eq_ok_iff.1 hread
    cases heq
    have hsource : w.source.toList = '"' :: (w.text.toList ++ ['"']) :=
      toList_source (by simp [hw]) (fun _ => rfl) (by simp [hw]) (by simp [hw])
    have htext : w.text.toList = t.text := htext
    refine ⟨⟨_, _, hsource, by decide⟩, ?_⟩
    rw [hsource, hw, htext, List.cons_append, List.append_assoc, List.singleton_append, readWord,
      quotedBody_text ht more]
    rfl
  · next hbrace hquote =>
    obtain ⟨⟨parts, span, rest⟩, hbare, heq⟩ := map_eq_ok_iff.1 hread
    dsimp only at heq
    split at heq
    · cases heq
      exact absurd rfl hkind
    · next hparts =>
      cases heq
      have hsource : w.source.toList = span :=
        toList_source (by simp [hw]) (by simp [hw]) (fun _ => htext.symm) (by simp [hw])
      obtain ⟨d, ds, rfl⟩ := List.exists_cons_of_ne_nil (bareBody_ne_nil hbare hsep)
      obtain ⟨rfl, -⟩ := List.cons.inj (bareBody_append hbare)
      refine ⟨⟨d, ds, hsource, hcomment⟩, ?_⟩
      rw [hsource, hw, htext]
      unfold readWord
      split
      · next heq => exact absurd (congrArg₂ List.cons (List.cons.inj heq).1 rfl) (hbrace cs)
      · next heq => exact absurd (congrArg₂ List.cons (List.cons.inj heq).1 rfl) (hquote cs)
      · rw [bareBody_again hbare hmore hend]
        simp [Except.map]
        simpa using hparts

/-- The last word of a command needs to come back only at the end of a text. -/
theorem return_concat
    (h : ∀ w ∈ words, w.kind ≠ .bracketed → ∀ more, atSeparator more = true → w.Returns more)
    (hw : w.kind ≠ .bracketed → w.Returns []) : Return (words.reverse ++ [w]) := by
  intro done v todo heq hkind more hmore hend
  rcases List.eq_nil_or_concat' todo with rfl | ⟨todo, x, rfl⟩
  · obtain ⟨-, hv⟩ := List.append_inj' heq rfl
    obtain rfl : w = v := List.singleton_inj.1 hv
    rw [hend rfl]
    exact hw hkind
  · rw [← List.cons_append, ← List.append_assoc] at heq
    obtain ⟨hwords, -⟩ := List.append_inj' heq rfl
    have hv : v ∈ words := List.mem_reverse.1 (by simp [hwords])
    exact h v hv hkind more hmore

theorem words_of_mem_finish {c : Command} (h : c ∈ finish filename words) :
    c.words = words.reverse := by
  have hmem := List.mem_map_of_mem h (f := Command.words)
  rw [(finish_words filename words).1, closed] at hmem
  split at hmem
  · cases hmem
  · exact List.mem_singleton.1 hmem

/-- The words of every command that is read come back. -/
theorem return_of_scan (h : scan filename cur words cs = .ok commands)
    (hwords : ∀ w ∈ words, w.kind ≠ .bracketed → ∀ more, atSeparator more = true → w.Returns more) :
    ∀ c ∈ commands, Return c.words := by
  have hfinish : ∀ {words : List Word},
      (∀ w ∈ words, w.kind ≠ .bracketed → ∀ more, atSeparator more = true → w.Returns more) →
        ∀ c ∈ finish filename words, Return c.words := by
    intro words hwords c hc done w todo heq hkind more hmore _
    rw [words_of_mem_finish hc] at heq
    exact hwords w (List.mem_reverse.1 (by simp [heq])) hkind more hmore
  fun_induction scan filename cur words cs generalizing commands with
  | case1 =>
    cases h
    exact hfinish hwords
  | case2 _ _ _ _ _ ih => exact ih h hwords
  | case3 _ _ _ _ _ _ ih =>
    obtain ⟨more, hmore, rfl⟩ := map_eq_ok_iff.1 h
    have hnone := ih hmore (by simp)
    exact fun c hc => (List.mem_append.1 hc).elim (hfinish hwords c) (hnone c)
  | case4 _ _ _ _ _ _ ih => exact ih h (by simp)
  | case5 => cases h
  | case6 _ _ _ _ _ _ _ _ _ _ ih => exact ih h hwords
  | case7 => cases h
  | case8 =>
    rename_i cur words c cs hgap hend hcomment hjoin kind t hread after hrest word ih
    have hsep : atSeparator (c :: cs) = false := not_atSeparator hgap hend hjoin
    have hword : word.kind ≠ .bracketed → ∀ more, atSeparator more = true →
      (t.rest = [] → more = []) →
        word.Returns more := fun hkind more hmore hlast =>
      returns_of_readWord hread hsep hcomment hkind hmore hlast rfl (String.toList_ofList)
    by_cases hlast : t.rest = []
    · rw [hlast, scan_nil] at h
      cases h
      intro c hc
      rw [words_of_mem_finish hc, List.reverse_cons]
      exact return_concat hwords fun hkind => hword hkind [] rfl fun _ => rfl
    · refine ih h (List.forall_mem_cons.2 ⟨fun hkind more hmore => ?_, hwords⟩)
      exact hword hkind more hmore fun hnil => absurd hnil hlast
  | case9 => cases h

theorem readWord_separator (h : atSeparator cs = true) :
    readWord cs = .ok (.bare, ⟨[], [], cs⟩) := by
  unfold readWord
  split
  · cases h
  · cases h
  · rw [bareBody_separator h]
    simp [Except.map]

variable (filename cur words) in
theorem scan_returned (h : w.Returns more) (hmore : atSeparator more = true) :
    ∃ cur' w', w'.content = w.content ∧
      scan filename cur words (w.source.toList ++ more) =
        scan filename cur' (w' :: words) more := by
  obtain ⟨⟨c, cs, hsource, hcomment⟩, hread⟩ := h
  have hsep : atSeparator (w.source.toList ++ more) = false := by
    rw [Bool.eq_false_iff]
    intro hsep
    rw [readWord_separator hsep] at hread
    simp [hsource] at hread
  rw [hsource, List.cons_append] at hsep hread ⊢
  exact ⟨_, _, by simp [Word.content], scan_read hsep hcomment hread hmore⟩

theorem atSeparator_spaced (ws : List Word) : atSeparator (spaced ws) = true := by
  cases ws <;> rfl

variable (filename cur words) in
/-- Words that come back are read one after the other, if none is bracketed. -/
theorem scan_spaced (hreturn : Return ws) (hkinds : ∀ w ∈ ws, w.kind ≠ .bracketed) :
    ∃ ws' : List Word, ws'.map Word.content = ws.map Word.content ∧
      scan filename cur words (spaced ws) = .ok (finish filename (ws'.reverse ++ words)) := by
  induction ws generalizing cur words with
  | nil => exact ⟨[], rfl, scan_nil⟩
  | cons w ws ih =>
    obtain ⟨hkind, hkinds⟩ := List.forall_mem_cons.1 hkinds
    have hw : w.Returns (spaced ws) :=
      hreturn [] w ws rfl hkind _ (atSeparator_spaced ws) fun hnil => hnil ▸ rfl
    have htail : Return ws := fun done v todo heq => hreturn (w :: done) v todo (by rw [heq]; rfl)
    obtain ⟨cur', w', hcontent, hscan⟩ :=
      scan_returned filename (cur.step ' ') words hw (atSeparator_spaced ws)
    obtain ⟨ws', hcontents, hrest⟩ := ih cur' (w' :: words) htail hkinds
    refine ⟨w' :: ws', by rw [List.map_cons, List.map_cons, hcontent, hcontents], ?_⟩
    change scan filename cur words (' ' :: (w.source.toList ++ spaced ws)) = _
    rw [scan_gap (by decide), hscan, hrest, List.reverse_cons, List.append_assoc,
      List.singleton_append]

theorem spaced_words (c : Command) : spaced c.words = ' ' :: c.source.toList := by
  obtain ⟨filename, head, args⟩ := c
  rw [Command.source, Command.words, String.toList_intercalate]
  induction args generalizing head with
  | nil => simp [spaced]
  | cons w args ih =>
    have hrest := ih w
    simp only [List.map_cons, List.intercalate_cons_cons] at hrest ⊢
    change ' ' :: (head.source.toList ++ spaced (w :: args)) = _
    rw [hrest, List.append_assoc]
    rfl

end Words

section Width

/-- The span of a word is at least as long as its text between its delimiters. -/
theorem width_le (h : readWord cs = .ok (kind, t)) (hsep : atSeparator cs = false) :
    t.text.length + (if kind = .bare then 0 else 2) ≤ t.span.length := by
  have hcovers := (readWord_covers h).1
  cases kind with
  | bare =>
    have htext : t.text = t.span := hcovers
    simp [htext]
  | quoted | braced =>
    obtain ⟨first, inner, last, -, -, hspan, hjoined⟩ := hcovers.delimited (by simp)
    have := hjoined.length_le
    simp [hspan]
    omega
  | bracketed =>
    obtain ⟨-, htext⟩ := hcovers
    have hne : t.span ≠ [] := by
      intro hnil
      have := readWord_length h hsep
      have := congrArg List.length (readWord_append h)
      simp [hnil] at this
      omega
    obtain ⟨tail, ⟨group, hspan, hopen, hgroup⟩, -⟩ := (readWord_kind h hne).2.2.1 rfl
    have hlast : group.getLast? = some ']' := closeBracket?_getLast hgroup
    have htwo : 2 ≤ group.length := by
      match group, hopen, hlast with
      | [_], hopen, hlast =>
        cases hopen
        cases hlast
      | _ :: _ :: _, _, _ => simp
    have hspan := congrArg List.length hspan
    rw [List.length_append] at hspan
    rw [htext, if_neg (by decide), inside, List.length_dropLast, List.length_drop]
    omega

def widths (ws : List Word) : ℕ := (ws.map fun w => w.width + 1).sum

theorem widths_nil : widths [] = 0 := rfl

theorem widths_append (ws vs : List Word) : widths (ws ++ vs) = widths ws + widths vs := by
  simp [widths]

theorem widths_cons (w : Word) (ws : List Word) : widths (w :: ws) = w.width + 1 + widths ws := by
  simp [widths]

theorem flatMap_finish (filename : String) (words : List Word) :
    (finish filename words).flatMap Command.words = words.reverse := by
  rw [List.flatMap_def, (finish_words filename words).1, closed]
  split
  · next h => rw [h]; rfl
  · exact List.append_nil _

theorem widths_finish (filename : String) (words : List Word) :
    widths ((finish filename words).flatMap Command.words) = widths words := by
  rw [flatMap_finish, widths, widths, List.map_reverse, List.sum_reverse]

/-- The words that are read have room in the source, with a separator after each but the last. -/
theorem widths_le (h : scan filename cur words cs = .ok commands) :
    widths (commands.flatMap Command.words) ≤
      widths words + cs.length + if atSeparator cs = true then 0 else 1 := by
  fun_induction scan filename cur words cs generalizing commands with
  | case1 cur words =>
    cases h
    rw [widths_finish]
    omega
  | case2 cur words c cs hgap ih =>
    have := ih h
    rw [if_pos (by simp [atSeparator, hgap]), List.length_cons]
    split at this <;> omega
  | case3 cur words c cs hgap hend ih =>
    obtain ⟨more, hmore, rfl⟩ := map_eq_ok_iff.1 h
    have := ih hmore
    rw [List.flatMap_append, widths_append, widths_finish, if_pos (by simp_all [atSeparator]),
      List.length_cons]
    rw [widths_nil] at this
    split at this <;> omega
  | case4 cur words cs hnone hgap hend ih =>
    have := ih h
    have hlength : (comment ('#' :: cs)).2.length < ('#' :: cs).length :=
      comment_length (by simp) (by simp)
    rw [widths_nil] at this
    split at this <;> omega
  | case5 => cases h
  | case6 cur words c cs _ _ _ span rest hjoin ih =>
    have := ih h
    have hlength := continuation?_length hjoin
    rw [if_pos (by simp [atSeparator, hjoin])]
    split at this <;> omega
  | case7 => cases h
  | case8 =>
    rename_i cur words c cs hgap hend hcomment hjoin kind t hread after hrest word ih
    have hsep : atSeparator (c :: cs) = false := not_atSeparator hgap hend hjoin
    have := ih h
    have hwidth := width_le hread hsep
    have hlength := congrArg List.length (readWord_append hread)
    have hword : word.width = t.text.length + if kind = .bare then 0 else 2 := by
      simp [word, Word.width]
    rw [List.length_append] at hlength
    rw [if_pos hrest, widths_cons, hword] at this
    rw [if_neg (by simp [hsep])]
    omega
  | case9 => cases h

theorem length_source (w : Word) :
    w.source.toList.length + (if w.kind = .bracketed then 2 else 0) = w.width := by
  unfold Word.source Word.width
  cases w.kind <;> simp

theorem length_spaced (ws : List Word) :
    (spaced ws).length + 2 * ws.countP (fun w => w.kind = .bracketed) = widths ws := by
  induction ws with
  | nil => rfl
  | cons w ws ih =>
    have hw := length_source w
    change (' ' :: (w.source.toList ++ spaced ws)).length + _ = _
    rw [List.length_cons, List.length_append, List.countP_cons, widths_cons, ← hw, ← ih]
    split <;> simp_all <;> omega

theorem widths_of_contents {vs : List Word} (h : vs.map Word.content = ws.map Word.content) :
    widths vs = widths ws := by
  have hwidth : (fun w => Word.width w + 1) =
      (fun p : WordKind × String => p.2.toList.length + (if p.1 = .bare then 0 else 2) + 1) ∘
        Word.content := rfl
  rw [widths, widths, hwidth, ← List.map_map, h, List.map_map]

end Width

/-- A command that is read from a script and written again is read as one command with the same
words exactly if none of its words is bracketed. -/
theorem readScript_source_iff {text filename filename' : String} {line' : Position} {c : Command}
    (h : readScript text filename line = .ok commands) (hc : c ∈ commands) :
    (∃ c', readScript c.source filename' line' = .ok [c'] ∧
        c'.words.map Word.content = c.words.map Word.content) ↔
      ∀ w ∈ c.words, w.kind ≠ .bracketed := by
  -- the source with a blank in front of it is read from one column before
  have hstart : readScript c.source filename' line' =
    scan filename' ⟨line', 0⟩ [] (spaced c.words) := by
    rw [spaced_words, scan_gap (by decide)]
    rfl
  constructor
  · rintro ⟨c', hread, hcontents⟩
    rw [hstart] at hread
    have hroom := widths_le hread
    rw [if_pos (atSeparator_spaced _), List.flatMap_singleton, widths_of_contents hcontents,
      ← length_spaced c.words, widths_nil] at hroom
    have hnone : c.words.countP (fun w => w.kind = .bracketed) = 0 := by omega
    simpa [List.countP_eq_zero] using hnone
  · intro hkinds
    have hreturn : Return c.words := return_of_scan h (by simp) c hc
    obtain ⟨ws, hcontents, hread⟩ := scan_spaced filename' ⟨line', 0⟩ [] hreturn hkinds
    obtain ⟨head, args, rfl⟩ : ∃ head args, ws = head :: args := by
      refine List.exists_cons_of_ne_nil fun hnil => ?_
      simp [hnil, Command.words] at hcontents
    refine ⟨⟨filename', head, args⟩, ?_, hcontents⟩
    rw [hstart, hread, List.append_nil, finish, List.reverse_reverse]

/-- A command with words of three kinds, over lines that are joined in each of them, in a group and
between words. At its end stands a backslash that escapes nothing. -/
def manifold : String :=
  "a[b\\\n  c] \x7bd\\\n  \x7be\x7d\x7d \\\n \"\\\"f\\\n [g \"h\"]\" i\\\\\\ j\\"

def manifoldCommand : Command :=
  ⟨"Console", ⟨.bare, "a[b\\\n  c]", 1, 1, 4⟩, [⟨.braced, "d \x7be\x7d", 2, 6, 6⟩,
    ⟨.quoted, "\\\"f [g \"h\"]", 4, 2, 9⟩, ⟨.bare, "i\\\\\\ j\\", 5, 11, 17⟩]⟩

theorem manifold_comes_back : readScript manifold "Console" 1 = .ok [manifoldCommand] ∧
    manifoldCommand ∈ [manifoldCommand] ∧ (∀ w ∈ manifoldCommand.words, w.kind ≠ .bracketed) ∧
    ∃ c', readScript manifoldCommand.source "Console" 1 = .ok [c'] ∧
      c'.words.map Word.content = manifoldCommand.words.map Word.content := by
  have h : readScript manifold "Console" 1 = .ok [manifoldCommand] := by
    have hread : (readScript manifold "Console" 1).toOption = some [manifoldCommand] := by
      decide +kernel
    cases hr : readScript manifold "Console" 1 <;> simp_all [Except.toOption]
  have hkinds : ∀ w ∈ manifoldCommand.words, w.kind ≠ .bracketed := by decide
  exact ⟨h, List.mem_singleton_self _, hkinds,
    (readScript_source_iff h (List.mem_singleton_self _)).2 hkinds⟩

def nestedCommand : Command :=
  ⟨"Console", ⟨.bare, "set", 1, 1, 3⟩, [⟨.bare, "y", 1, 5, 5⟩, ⟨.bracketed, "expr 1", 1, 7, 14⟩]⟩

/-- The bracketed word is written without its brackets, and its text is then two bare words. So the
command does not come back. -/
theorem nestedCommand_unwrapped :
    (readScript "set y [expr 1]" "Console" 1).toOption = some [nestedCommand] ∧
      nestedCommand.source = "set y expr 1" ∧
      ¬∃ c', readScript nestedCommand.source "Console" 1 = .ok [c'] ∧
        c'.words.map Word.content = nestedCommand.words.map Word.content := by
  refine ⟨by decide +kernel, by decide, ?_⟩
  rintro ⟨c', hread, hcontents⟩
  have hflat : (readScript nestedCommand.source "Console" 1).toOption.map
      (List.map fun c => c.words.map Word.content) =
        some [[(.bare, "set"), (.bare, "y"), (.bare, "expr"), (.bare, "1")]] := by decide +kernel
  rw [hread] at hflat
  change some [c'.words.map Word.content] = _ at hflat
  rw [hcontents] at hflat
  exact absurd hflat (by decide)

end RadarTimeline.Script
