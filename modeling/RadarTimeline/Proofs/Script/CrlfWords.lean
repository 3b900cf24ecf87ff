import RadarTimeline.Proofs.Script.WrittenCommands

namespace RadarTimeline.Script

def crlf (cs : List Char) : List Char := cs.flatMap fun c => if c = '\n' then ['\r', '\n'] else [c]

variable {cs ds span rest : List Char} {c : Char} {t : Taken} {kind : WordKind} {parts : ℕ}

@[simp]
theorem crlf_nil : crlf [] = [] := rfl

@[simp]
theorem crlf_newline (cs : List Char) : crlf ('\n' :: cs) = '\r' :: '\n' :: crlf cs := rfl

@[simp]
theorem crlf_cons (h : c ≠ '\n') (cs : List Char) : crlf (c :: cs) = c :: crlf cs := by
  rw [crlf, List.flatMap_cons, if_neg h]
  rfl

theorem crlf_append (cs ds : List Char) : crlf (cs ++ ds) = crlf cs ++ crlf ds :=
  List.flatMap_append

theorem map_cover_crlf (pre : List Char) (x : Option (List Char × List Char)) :
    (x.map (cover pre)).map (Prod.map crlf crlf) = (x.map (Prod.map crlf crlf)).map
      (cover (crlf pre)) := by
  cases x with
  | none => rfl
  | some split => exact congrArg some (Prod.ext (crlf_append pre split.1) rfl)

theorem escape_crlf (h : ∀ d ds, c = '\\' → cs = d :: ds → False) :
    ∀ d ds, c = '\\' → crlf cs = d :: ds → False := by
  intro d ds hc hds
  cases cs with
  | nil => cases hds
  | cons e es => exact h e es hc rfl

theorem closeBracket?_lineEnd (hc : c = '\r' ∨ c = '\n') (depth : Int) (braces : ℕ)
    (cs : List Char) :
    closeBracket? depth braces (c :: cs) = (closeBracket? depth braces cs).map (cover [c]) := by
  rcases hc with rfl | rfl <;> by_cases hb : braces = 0 <;> simp [closeBracket?, hb]

/-- A bracket group ends at the same bracket. -/
theorem closeBracket?_crlf (depth : Int) (braces : ℕ) (cs : List Char) :
    closeBracket? depth braces (crlf cs) = (closeBracket? depth braces cs).map
      (Prod.map crlf crlf) := by
  fun_induction closeBracket? depth braces cs with
  | case1 => rfl
  | case2 depth braces c cs ih =>
    rw [map_cover_crlf, ← ih]
    by_cases hc : c = '\n'
    · subst hc
      rw [crlf_cons (by decide), crlf_newline, closeBracket?, closeBracket?_lineEnd (.inr rfl),
        Option.map_map]
      rfl
    · simp [closeBracket?, hc]
  | case3 depth cs _ ih =>
    rw [map_cover_crlf, ← ih]
    simp [closeBracket?]
  | case4 depth cs hdepth =>
    simp [closeBracket?, hdepth]
  | case5 depth cs hdepth _ _ ih =>
    rw [map_cover_crlf, ← ih]
    simp [closeBracket?, hdepth]
  | case6 depth c cs hescape hopen hclose ih =>
    rw [map_cover_crlf, ← ih]
    by_cases hc : c = '\n'
    · subst hc
      rw [crlf_newline, closeBracket?_lineEnd (.inl rfl), closeBracket?_lineEnd (.inr rfl),
        Option.map_map]
      rfl
    · rw [crlf_cons hc, closeBracket?, if_pos rfl, if_neg hopen, if_neg hclose,
        crlf_cons hc, crlf_nil]
      exact escape_crlf hescape
  | case7 depth braces cs hbraces _ ih =>
    rw [map_cover_crlf, ← ih]
    simp [closeBracket?, hbraces]
  | case8 depth braces cs hbraces _ _ ih =>
    rw [map_cover_crlf, ← ih]
    simp [closeBracket?, hbraces]
  | case9 depth braces c cs hescape hbraces hopen hclose ih =>
    rw [map_cover_crlf, ← ih]
    by_cases hc : c = '\n'
    · subst hc
      rw [crlf_newline, closeBracket?_lineEnd (.inl rfl), closeBracket?_lineEnd (.inr rfl),
        Option.map_map]
      rfl
    · rw [crlf_cons hc, closeBracket?, if_neg hbraces, if_neg hopen, if_neg hclose,
        crlf_cons hc, crlf_nil]
      exact escape_crlf hescape

/-- What is taken of a text with such lines: the same stretch, in which no lines are joined. -/
def Taken.crlf (t : Taken) : Taken :=
  ⟨Script.crlf t.span, (Script.crlf t.span).dropLast, Script.crlf t.rest⟩

theorem crlf_ne_nil (h : cs ≠ []) : crlf cs ≠ [] := by
  obtain ⟨c, cs, rfl⟩ := List.exists_cons_of_ne_nil h
  by_cases hc : c = '\n'
  · subst hc
    simp
  · simp [hc]

theorem cover_crlf (pre text : List Char) (h : t.span ≠ []) :
    (t.cover pre text).crlf = t.crlf.cover (crlf pre) (crlf pre) := by
  rw [Taken.crlf, Taken.cover, crlf_append, List.dropLast_append_of_ne_nil (crlf_ne_nil h)]
  rfl

theorem ne_of_gap (h : isGap c = true) : c ≠ '\n' := by
  rintro rfl
  exact absurd h (by decide)

theorem crlf_gaps (h : ∀ c ∈ cs, isGap c = true) : crlf cs = cs := by
  induction cs with
  | nil => rfl
  | cons c cs ih =>
    obtain ⟨hc, hcs⟩ := List.forall_mem_cons.1 h
    rw [crlf_cons (ne_of_gap hc), ih hcs]

theorem crlf_indent (cs : List Char) :
    crlf cs = cs.takeWhile isGap ++ crlf (cs.dropWhile isGap) := by
  conv_lhs => rw [← List.takeWhile_append_dropWhile (p := isGap) (l := cs)]
  rw [crlf_append, crlf_gaps (isGap_takeWhile cs)]

theorem bracedBody_gaps (depth : ℕ) (h : ∀ c ∈ ds, isGap c = true) (cs : List Char) :
    bracedBody depth (ds ++ cs) = (bracedBody depth cs).map (Taken.cover ds ds) := by
  induction ds with
  | nil => exact Option.map_id'.symm
  | cons c ds ih =>
    obtain ⟨hc, hds⟩ := List.forall_mem_cons.1 h
    have hne : c ≠ '\\' ∧ c ≠ '}' ∧ c ≠ '{' := by
      refine ⟨?_, ?_, ?_⟩ <;> rintro rfl <;> exact absurd hc (by decide)
    rw [List.cons_append, bracedBody_cons hne.1 hne.2.1, if_neg hne.2.2, ih hds, Option.map_map]
    rfl

/-- The rest of a braced word is the same with such lines. -/
theorem bracedBody_crlf (depth : ℕ) (cs : List Char) :
    bracedBody depth (crlf cs) = (bracedBody depth cs).map Taken.crlf := by
  have hcover : ∀ {depth cs} (pre text : List Char),
      ((bracedBody depth cs).map (Taken.cover pre text)).map Taken.crlf =
        ((bracedBody depth cs).map Taken.crlf).map (Taken.cover (crlf pre) (crlf pre)) := by
    intro depth cs pre text
    rcases h : bracedBody depth cs with _ | t
    · rfl
    · obtain ⟨inner, hspan, -⟩ := bracedBody_joins h
      exact congrArg some (cover_crlf pre text (by simp [hspan]))
  fun_induction bracedBody depth cs with
  | case1 => rw [crlf_nil, bracedBody]; rfl
  | case2 depth cs ih =>
    -- the carriage return is escaped, and the newline after it no longer is
    rw [hcover, ← ih, crlf_cons (by decide), crlf_newline, bracedBody_escape (by decide),
      bracedBody_cons (by decide) (by decide), if_neg (by decide), crlf_indent cs,
      bracedBody_gaps _ (isGap_takeWhile cs), Option.map_map, Option.map_map]
    rw [crlf_cons (by decide), crlf_newline, crlf_gaps (isGap_takeWhile cs)]
    rfl
  | case3 depth c cs hc ih =>
    have hc : c ≠ '\n' := hc
    rw [hcover, ← ih, crlf_cons (by decide), crlf_cons hc, bracedBody_escape hc,
      crlf_cons (by decide), crlf_cons hc]
    rfl
  | case4 =>
    rw [crlf_cons (by decide), bracedBody, if_pos rfl]
    · rfl
    · simp
    · simp
  | case5 depth cs _ _ ih =>
    rw [hcover, ← ih, crlf_cons (by decide), bracedBody_close]
    rfl
  | case6 depth c cs hjoin hescape hclose ih =>
    rw [dite_eq_ite] at ih
    rw [hcover, ← ih]
    by_cases hline : c = '\n'
    · subst hline
      rw [crlf_newline, bracedBody_cons (by decide) (by decide),
        bracedBody_cons (by decide) (by decide), Option.map_map]
      rfl
    by_cases hslash : c = '\\'
    · cases cs with
      | nil =>
        subst hslash
        cases depth <;> simp [bracedBody]
      | cons d ds => exact (hescape d ds hslash rfl).elim
    · rw [crlf_cons hline, bracedBody_cons hslash hclose, crlf_cons hline]
      rfl

theorem quotedBody_gaps (h : ∀ c ∈ ds, isGap c = true) (cs : List Char) :
    quotedBody (ds ++ cs) = (quotedBody cs).map (Taken.cover ds ds) := by
  induction ds with
  | nil => cases h : quotedBody cs <;> simp [h, Except.map, Taken.cover]
  | cons c ds ih =>
    obtain ⟨hc, hds⟩ := List.forall_mem_cons.1 h
    have hne : c ≠ '\\' ∧ c ≠ '"' ∧ c ≠ '[' := by
      refine ⟨?_, ?_, ?_⟩ <;> rintro rfl <;> exact absurd hc (by decide)
    rw [List.cons_append, quotedBody_cons hne.1 hne.2.1 hne.2.2, ih hds]
    cases quotedBody cs <;> rfl

/-- The rest of a quoted word, or its fault, is the same with such lines. -/
theorem quotedBody_crlf (cs : List Char) :
    quotedBody (crlf cs) = (quotedBody cs).map Taken.crlf := by
  have hcover : ∀ {cs} (pre text : List Char),
      ((quotedBody cs).map (Taken.cover pre text)).map Taken.crlf =
        ((quotedBody cs).map Taken.crlf).map (Taken.cover (crlf pre) (crlf pre)) := by
    intro cs pre text
    rcases h : quotedBody cs with _ | t
    · rfl
    · obtain ⟨inner, hspan, -⟩ := quotedBody_joins h
      exact congrArg Except.ok (cover_crlf pre text (by simp [hspan]))
  have hmap : ∀ (x : Except ReadFault Taken) (f g : Taken → Taken), (x.map f).map g =
    x.map (g ∘ f) := by
    intro x f g
    cases x <;> rfl
  fun_induction quotedBody cs with
  | case1 => rw [crlf_nil, quotedBody]; rfl
  | case2 cs ih =>
    rw [hcover, ← ih, crlf_cons (by decide), crlf_newline, quotedBody_escape (by decide),
      quotedBody_cons (by decide) (by decide) (by decide), crlf_indent cs,
      quotedBody_gaps (isGap_takeWhile cs), hmap, hmap]
    rw [crlf_cons (by decide), crlf_newline, crlf_gaps (isGap_takeWhile cs)]
    rfl
  | case3 c cs hc ih =>
    have hc : c ≠ '\n' := hc
    rw [hcover, ← ih, crlf_cons (by decide), crlf_cons hc, quotedBody_escape hc,
      crlf_cons (by decide), crlf_cons hc]
    rfl
  | case4 =>
    rw [crlf_cons (by decide), quotedBody, if_pos rfl]
    · rfl
    · simp
    · simp
  | case5 cs _ _ _ hnone =>
    have hgroup : bracketGroup? (crlf ('[' :: cs)) = none := by
      rw [bracketGroup?, closeBracket?_crlf, ← bracketGroup?, hnone]
      rfl
    rw [crlf_cons (by decide)] at hgroup ⊢
    rw [quotedBody, if_neg (by decide), if_pos rfl]
    · split
      · rfl
      · next heq => rw [hgroup] at heq; cases heq
    · simp
    · simp
  | case6 cs group rest _ _ _ hgroup ih =>
    have hgroup : bracketGroup? (crlf ('[' :: cs)) = some (crlf group, crlf rest) := by
      rw [bracketGroup?, closeBracket?_crlf, ← bracketGroup?, hgroup]
      rfl
    rw [hcover, ← ih]
    rw [crlf_cons (by decide)] at hgroup ⊢
    exact quotedBody_group hgroup
  | case7 c cs _ hescape hclose hopen ih =>
    rw [hcover, ← ih]
    by_cases hline : c = '\n'
    · subst hline
      rw [crlf_newline, quotedBody_cons (by decide) (by decide) (by decide),
        quotedBody_cons (by decide) (by decide) (by decide), hmap]
      rfl
    by_cases hslash : c = '\\'
    · cases cs with
      | nil =>
        subst hslash
        simp [quotedBody, Except.map]
      | cons d ds => exact (hescape d ds hslash rfl).elim
    · rw [crlf_cons hline, quotedBody_cons hslash hclose hopen, crlf_cons hline]
      rfl

/-- What follows a bare stretch. A backslash that joined the next line escapes the carriage return,
and the stretch goes on over both. -/
def crlfRest : List Char → List Char × List Char
  | '\\' :: '\n' :: rest => (['\\', '\r'], '\n' :: crlf rest)
  | rest => ([], crlf rest)

def crlfStretch (s : ℕ × List Char × List Char) : ℕ × List Char × List Char :=
  (s.1, crlf s.2.1 ++ (crlfRest s.2.2).1, (crlfRest s.2.2).2)

theorem crlfRest_apart (h : continuation? rest = none) : crlfRest rest = ([], crlf rest) := by
  unfold crlfRest
  split
  · cases h
  · rfl

theorem map_crlfStretch (f : ℕ → ℕ) (pre : List Char)
    (x : Except ReadFault (ℕ × List Char × List Char)) :
    (x.map fun s => (f s.1, pre ++ s.2.1, s.2.2)).map crlfStretch =
      (x.map crlfStretch).map fun s => (f s.1, crlf pre ++ s.2.1, s.2.2) := by
  cases x with
  | error fault => rfl
  | ok s => simp [Except.map, crlfStretch, crlf_append]

theorem bracketGroup?_crlf (cs : List Char) :
    bracketGroup? (crlf cs) = (bracketGroup? cs).map (Prod.map crlf crlf) :=
  closeBracket?_crlf 0 0 cs

theorem bareBody_crlf (cs : List Char) : bareBody (crlf cs) = (bareBody cs).map crlfStretch := by
  fun_induction bareBody cs with
  | case1 => rw [crlf_nil, bareBody]; rfl
  | case2 cs =>
    have hend : bareBody ('\n' :: crlf cs) = .ok (0, [], '\n' :: crlf cs) := bareBody_separator rfl
    rw [crlf_cons (by decide), crlf_newline, bareBody, hend]
    · rfl
    · decide
  | case3 c cs hc ih =>
    have hline : c ≠ '\n' := hc
    refine Eq.trans ?_ (map_crlfStretch (fun parts => parts + Text.unitCount c - 1)
      ['\\', c] _).symm
    rw [← ih, crlf_cons (by decide), crlf_cons hline, bareBody, crlf_cons (by decide),
      crlf_cons hline]
    · rfl
    · exact hc
  | case4 c cs hjoin _ hsep =>
    have hcut : crlfRest (c :: cs) = ([], crlf (c :: cs)) := by
      unfold crlfRest
      split
      · next heq => exact (hjoin _ (List.cons.inj heq).1 (List.cons.inj heq).2).elim
      · rfl
    have hsep' : atSeparator (crlf (c :: cs)) = true := by
      by_cases hline : c = '\n'
      · subst hline
        rfl
      · rw [crlf_cons hline, atSeparator, hsep, Bool.true_or]
    rw [bareBody_separator hsep']
    change _ = Except.ok (0, [] ++ (crlfRest (c :: cs)).1, (crlfRest (c :: cs)).2)
    rw [hcut]
    rfl
  | case5 cs _ _ _ hnone =>
    have hgroup := bracketGroup?_crlf ('[' :: cs)
    rw [hnone, crlf_cons (by decide)] at hgroup
    rw [crlf_cons (by decide), bareBody, if_neg (by decide), if_pos rfl]
    · split
      · rfl
      · next heq => rw [hgroup] at heq; cases heq
    · simp
    · simp
  | case6 cs group rest _ _ _ hsome ih =>
    have hgroup := bracketGroup?_crlf ('[' :: cs)
    rw [hsome, crlf_cons (by decide)] at hgroup
    refine Eq.trans ?_ (map_crlfStretch (fun parts => parts + 1) group _).symm
    rw [← ih, crlf_cons (by decide), bareBody, if_neg (by decide), if_pos rfl]
    · split
      · next heq => rw [hgroup] at heq; cases heq
      · next heq =>
        rw [hgroup] at heq
        cases heq
        rfl
    · simp
    · simp
  | case7 c cs _ hescape hsep hopen ih =>
    have hline : c ≠ '\n' := by
      rintro rfl
      simp at hsep
    refine Eq.trans ?_ (map_crlfStretch (fun parts => if c = '\\' then parts
      else parts + 1) [c] _).symm
    rw [← ih, crlf_cons hline, bareBody, if_neg hsep, if_neg hopen, crlf_cons hline]
    · rfl
    · exact fun ds hc hds => escape_crlf hescape '\n' ds hc hds
    · exact escape_crlf hescape

def crlfWord : WordKind → Taken → Taken
  | .braced, t | .quoted, t => ⟨crlf t.span, inside (crlf t.span), crlf t.rest⟩
  | .bracketed, t =>
    ⟨crlf t.span ++ (crlfRest t.rest).1, inside (crlf t.span ++ (crlfRest t.rest).1),
      (crlfRest t.rest).2⟩
  | .bare, t =>
    ⟨crlf t.span ++ (crlfRest t.rest).1, crlf t.span ++ (crlfRest t.rest).1, (crlfRest t.rest).2⟩

theorem continuation?_crlf (cs : List Char) : continuation? (crlf cs) = none := by
  unfold continuation?
  split
  · next more heq =>
    rcases cs with _ | ⟨c, _ | ⟨d, cs⟩⟩
    · cases heq
    · by_cases hc : c = '\n' <;> simp [hc] at heq
    · by_cases hc : c = '\n' <;> by_cases hd : d = '\n' <;> simp [hc, hd] at heq
  · rfl

theorem atSeparator_crlf (h : continuation? cs = none) :
    atSeparator (crlf cs) = atSeparator cs := by
  cases cs with
  | nil => rfl
  | cons c cs =>
    have hnone := continuation?_crlf (c :: cs)
    by_cases hc : c = '\n'
    · subst hc
      rfl
    · rw [crlf_cons hc] at hnone ⊢
      rw [atSeparator, atSeparator, h, hnone]

theorem advance_crlf (cur : Cursor) (cs : List Char) : cur.advance (crlf cs) = cur.advance cs := by
  induction cs generalizing cur with
  | nil => rfl
  | cons c cs ih =>
    by_cases hc : c = '\n'
    · subst hc
      exact ih _
    · rw [crlf_cons hc]
      exact ih _

theorem inside_crlf (hfirst : span.head? ≠ some '\n') (hlast : span.getLast? ≠ some '\n') :
    inside (crlf span) = crlf (inside span) := by
  rcases span with _ | ⟨c, span⟩
  · rfl
  have hc : c ≠ '\n' := fun h => hfirst (congrArg some h)
  rw [crlf_cons hc, inside, inside, List.drop_one, List.drop_one, List.tail_cons, List.tail_cons]
  rcases List.eq_nil_or_concat' span with rfl | ⟨init, d, rfl⟩
  · rfl
  have hd : d ≠ '\n' := by simpa [List.getLast?_cons] using hlast
  rw [crlf_append, crlf_cons hd, crlf_nil, List.dropLast_concat, List.dropLast_concat]

theorem head?_crlf (h : c ≠ '\r' ∧ c ≠ '\n') (cs : List Char) :
    (crlf cs).head? = some c ↔ cs.head? = some c := by
  cases cs with
  | nil => rfl
  | cons d cs =>
    by_cases hd : d = '\n'
    · subst hd
      simp [h.1.symm, h.2.symm]
    · rw [crlf_cons hd]
      rfl

theorem readWord_bare (hbrace : cs.head? ≠ some '{') (hquote : cs.head? ≠ some '"') :
    readWord cs = (bareBody cs).map fun s =>
      if cs.head? = some '[' && s.1 = 1 then (.bracketed, ⟨s.2.1, inside s.2.1, s.2.2⟩)
      else (.bare, ⟨s.2.1, s.2.1, s.2.2⟩) := by
  unfold readWord
  split
  · exact absurd rfl hbrace
  · exact absurd rfl hquote
  · rfl

theorem readWord_crlf (cs : List Char) :
    readWord (crlf cs) = (readWord cs).map fun word => (word.1, crlfWord word.1 word.2) := by
  by_cases hbrace : cs.head? = some '{'
  · obtain ⟨body, rfl⟩ := List.head?_eq_some_iff.1 hbrace
    rw [crlf_cons (by decide), readWord, readWord, bracedBody_crlf]
    cases bracedBody 0 body <;> rfl
  by_cases hquote : cs.head? = some '"'
  · obtain ⟨body, rfl⟩ := List.head?_eq_some_iff.1 hquote
    rw [crlf_cons (by decide), readWord, readWord, quotedBody_crlf]
    cases quotedBody body <;> rfl
  have hbrace' : (crlf cs).head? ≠ some '{' := fun h => hbrace ((head?_crlf (by decide) cs).1 h)
  have hquote' : (crlf cs).head? ≠ some '"' := fun h => hquote ((head?_crlf (by decide) cs).1 h)
  rw [readWord_bare hbrace' hquote', readWord_bare hbrace hquote, bareBody_crlf]
  cases bareBody cs with
  | error fault => rfl
  | ok s =>
    have hopen : decide ((crlf cs).head? = some '[') = decide (cs.head? = some '[') :=
      decide_eq_decide.2 (head?_crlf (by decide) cs)
    simp only [Except.map, crlfStretch, hopen]
    split_ifs <;> rfl

end RadarTimeline.Script
