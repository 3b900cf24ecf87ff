import RadarTimeline.Proofs.Script.CrlfWords

namespace RadarTimeline.Script

/-- The lines that a comment goes on over hold no words, where they are lines of their own.
`resumed` is at a place on such a line where no comment has begun yet. -/
def quiet : Bool → List Char → Bool
  | _, [] => true
  | false, '\\' :: '\n' :: cs => quiet true cs
  | false, c :: cs => c = '\n' || quiet false cs
  | true, c :: cs =>
    c = '\n' || if isGap c || c = ';' then quiet true cs else c = '#' && quiet false cs

/-- No line break that a backslash joins is read, but in bracket groups, which keep it, and in
comments that are quiet over their lines. -/
def unjoined : List Char → Bool
  | [] => true
  | c :: cs =>
    if isGap c || c = '\n' || c = ';' then unjoined cs
    else if c = '#' then quiet false cs && unjoined (comment (c :: cs)).2
    else match _hj : continuation? (c :: cs) with
      | some _ => false
      | none =>
        match _hw : readWord (c :: cs) with
        | .error _ => true
        | .ok (kind, t) =>
          (kind = .bare || t.text = inside t.span) && (!atSeparator t.rest || unjoined t.rest)
termination_by cs => cs.length
decreasing_by
  · grind
  · exact comment_length (by grind) (by simp)
  · exact readWord_length _hw (by simp_all [atSeparator])

def Word.crlf (w : Word) : Word := { w with text := String.ofList (Script.crlf w.text.toList) }

def Command.crlf (c : Command) : Command := ⟨c.filename, c.head.crlf, c.args.map Word.crlf⟩

variable {filename : String} {cur : Cursor} {words : List Word}
    {cs ds span text : List Char} {c : Char}
  {kind : WordKind} {t : Taken} {commands : List Command}

theorem finish_crlf (filename : String) (words : List Word) :
    finish filename (words.map Word.crlf) = (finish filename words).map Command.crlf := by
  rw [finish, finish, ← List.map_reverse]
  cases words.reverse <;> rfl

section Comments

theorem comment_newline (cs : List Char) : comment ('\n' :: cs) = ([], '\n' :: cs) := by
  rw [comment, if_pos rfl]
  simp

theorem comment_cons (h : c ≠ '\n') (hjoin : c ≠ '\\' ∨ cs.head? ≠ some '\n') :
    comment (c :: cs) = Script.cover [c] (comment cs) := by
  rw [comment, if_neg h]
  rintro more rfl rfl
  simp at hjoin

theorem comment_gaps (h : ∀ c ∈ span, isGap c = true) (cs : List Char) :
    comment (span ++ cs) = Script.cover span (comment cs) := by
  induction span with
  | nil => rfl
  | cons c span ih =>
    obtain ⟨hc, hspan⟩ := List.forall_mem_cons.1 h
    rw [List.cons_append, comment_cons (ne_of_gap hc) (.inl (isGap_ne hc).1), ih hspan]
    rfl

theorem comment_joined (cs : List Char) :
    comment ('\\' :: '\n' :: cs) = Script.cover ['\\', '\n'] (comment cs) := by
  rw [comment]
  conv_rhs => rw [← List.takeWhile_append_dropWhile (p := isGap) (l := cs)]
  rw [comment_gaps (isGap_takeWhile cs)]
  rfl

def scanPast (filename : String) (cur : Cursor) : Bool → List Char → Except ReadError (List Command)
  | false, cs => scan filename (cur.advance (comment cs).1) [] (comment cs).2
  | true, cs => scan filename cur [] cs

theorem map_finish_nil (x : Except ReadError (List Command)) :
    x.map (finish filename [] ++ ·) = x := by
  cases x <;> rfl

theorem scanPast_cons (h : c ≠ '\n') (hjoin : c ≠ '\\' ∨ cs.head? ≠ some '\n') :
    scanPast filename cur false (c :: cs) = scanPast filename (cur.step c) false cs := by
  rw [scanPast, comment_cons h hjoin]
  rfl

theorem scanPast_newline (resumed : Bool) (cs : List Char) :
    scanPast filename cur resumed ('\n' :: cs) = scan filename (cur.step '\n') [] cs := by
  have hscan : scan filename cur [] ('\n' :: cs) = scan filename (cur.step '\n') [] cs := by
    rw [scan_end (.inl rfl), map_finish_nil]
  cases resumed
  · rw [scanPast, comment_newline]
    exact hscan
  · exact hscan

theorem head?_crlf_ne (cs : List Char) : (crlf cs).head? ≠ some '\n' := by
  cases cs with
  | nil => simp
  | cons c cs => by_cases hc : c = '\n' <;> simp [hc]

theorem scan_crlf_end (h : c = '\n' ∨ c = ';') (cs : List Char) :
    scan filename cur words (crlf (c :: cs)) =
      (scan filename (cur.step c) [] (crlf cs)).map (finish filename words ++ ·) := by
  rcases h with rfl | rfl
  · rw [crlf_newline, scan_gap (by decide), scan_end (.inl rfl)]
    rfl
  · rw [crlf_cons (by decide), scan_end (.inr rfl)]

theorem not_joined (h : ∀ more, c = '\\' → cs = '\n' :: more → False) :
    c ≠ '\\' ∨ cs.head? ≠ some '\n' := by
  by_contra hboth
  push Not at hboth
  obtain ⟨more, rfl⟩ := List.head?_eq_some_iff.1 hboth.2
  exact h more hboth.1 rfl

/-- Where a comment in a text with such lines ends before the one in the text with newlines alone,
no word stands in between. -/
theorem scanPast_crlf (filename : String) (cur : Cursor) (resumed : Bool) (cs : List Char)
    (h : quiet resumed cs = true) :
    scanPast filename cur resumed (crlf cs) =
      scan filename (cur.advance (comment cs).1) [] (crlf (comment cs).2) := by
  fun_induction quiet resumed cs generalizing cur with
  | case1 resumed =>
    rw [comment]
    cases resumed
    · rw [crlf_nil, scanPast, comment]
    · rfl
  | case2 cs ih =>
    -- here the comment ends, and the line that it went on over is read as one of its own
    rw [comment_joined, crlf_cons (by decide), crlf_newline, scanPast_cons (by decide) (by simp),
      scanPast_cons (by decide) (by simp), scanPast_newline]
    exact ih _ h
  | case3 c cs hjoin ih =>
    by_cases hc : c = '\n'
    · subst hc
      rw [comment_newline, crlf_newline, scanPast_cons (by decide) (by simp), scanPast_newline]
      change scan filename (cur.step '\n') [] (crlf cs) = scan filename cur [] (crlf ('\n' :: cs))
      rw [scan_crlf_end (.inl rfl), map_finish_nil]
    · rw [comment_cons hc (not_joined hjoin), crlf_cons hc,
        scanPast_cons hc (.inr (head?_crlf_ne cs))]
      exact ih _ (by simpa [hc] using h)
  | case4 c cs ih1 ih2 =>
    by_cases hc : c = '\n'
    · subst hc
      rw [comment_newline]
      rfl
    rw [decide_eq_false hc, Bool.false_or] at h
    split at h
    · next hskip =>
      have hescape : c ≠ '\\' := by
        rintro rfl
        exact absurd hskip (by decide)
      rw [comment_cons hc (.inl hescape), crlf_cons hc]
      refine Eq.trans ?_ (ih1 _ h)
      rcases Bool.or_eq_true _ _ ▸ hskip with hgap | hend
      · exact scan_gap hgap _
      · refine (scan_end (.inr (of_decide_eq_true hend)) _).trans (map_finish_nil _)
    · obtain ⟨rfl, hquiet⟩ : c = '#' ∧ quiet false cs = true := by simpa using h
      rw [comment_cons hc (.inl (by decide)), crlf_cons hc]
      refine Eq.trans ?_ (ih2 _ hquiet)
      refine (scan_comment _).trans ?_
      rw [comment_cons hc (.inl (by decide))]
      rfl

end Comments

section Unjoined

theorem unjoined_skip (h : isGap c || c = '\n' || c = ';') (cs : List Char) :
    unjoined (c :: cs) = unjoined cs := by
  rw [unjoined, if_pos h]

theorem unjoined_comment (cs : List Char) :
    unjoined ('#' :: cs) = (quiet false cs && unjoined (comment ('#' :: cs)).2) := by
  rw [unjoined, if_neg (by decide), if_pos rfl]

theorem unjoined_joined (h : (continuation? cs).isSome = true) : unjoined cs = false := by
  unfold continuation? at h
  split at h
  · rw [unjoined, if_neg (by decide), if_neg (by decide)]
    rfl
  · cases h

theorem unjoined_read (hsep : atSeparator (c :: cs) = false) (hcomment : c ≠ '#')
    (hread : readWord (c :: cs) = .ok (kind, t)) :
    unjoined (c :: cs) =
      ((kind = .bare || t.text = inside t.span) && (!atSeparator t.rest || unjoined t.rest)) := by
  obtain ⟨hgap, hline, hend, hjoin⟩ := not_atSeparator_cons hsep
  rw [unjoined, if_neg (by simp [hgap, hline, hend]), if_neg hcomment]
  split
  · next heq => rw [hjoin] at heq; cases heq
  · split
    · next heq => rw [hread] at heq; cases heq
    · next heq =>
      rw [hread] at heq
      cases heq
      rfl

theorem continuation?_of_unjoined (h : atSeparator cs = true → unjoined cs = true) :
    continuation? cs = none := by
  by_contra hjoin
  have hsome : (continuation? cs).isSome = true := Option.isSome_iff_ne_none.2 hjoin
  have hsep : atSeparator cs = true := by
    cases cs with
    | nil => rfl
    | cons c cs => rw [atSeparator, hsome, Bool.or_true]
  rw [unjoined_joined hsome] at h
  cases h hsep

theorem crlf_cons_of_not_atSeparator (hsep : atSeparator (c :: cs) = false) :
    crlf (c :: cs) = c :: crlf cs ∧ atSeparator (c :: crlf cs) = false := by
  obtain ⟨-, hline, -, hjoin⟩ := not_atSeparator_cons hsep
  have hcrlf := crlf_cons hline cs
  exact ⟨hcrlf, hcrlf ▸ (atSeparator_crlf hjoin).trans hsep⟩

/-- A word that holds no joined line, and that none follows, is the same. -/
theorem readWord_crlf_apart (hread : readWord (c :: cs) = .ok (kind, t))
    (hsep : atSeparator (c :: cs) = false) (htext : kind = .bare ∨ t.text = inside t.span)
    (hrest : continuation? t.rest = none) :
    readWord (c :: crlf cs) = .ok (kind, ⟨crlf t.span, crlf t.text, crlf t.rest⟩) := by
  have hfirst : t.span.head? ≠ some '\n' := by
    obtain ⟨-, hline, -, -⟩ := not_atSeparator_cons hsep
    have happend := readWord_append hread
    rcases hspan : t.span with _ | ⟨d, span⟩
    · simp
    · rw [hspan] at happend
      obtain ⟨rfl, -⟩ := List.cons.inj happend
      simpa using hline
  have hinside := inside_crlf hfirst (readWord_covers hread).2
  have hcovers := (readWord_covers hread).1
  have htaken : crlfWord kind t = ⟨crlf t.span, crlf t.text, crlf t.rest⟩ := by
    cases kind with
    | bare =>
      have hspan : t.text = t.span := hcovers
      rw [crlfWord, crlfRest_apart hrest, List.append_nil, hspan]
    | bracketed =>
      rw [crlfWord, crlfRest_apart hrest, List.append_nil, hinside, htext.resolve_left (by decide)]
    | braced | quoted => rw [crlfWord, hinside, htext.resolve_left (by decide)]
  rw [← (crlf_cons_of_not_atSeparator hsep).1, readWord_crlf, hread, ← htaken]
  rfl

end Unjoined

section Unbroken

end Unbroken

variable (filename cur words) in
/-- A script in which no lines are joined is read like its text with such lines, faults and places
included. -/
theorem scan_crlf (h : unjoined cs = true) :
    scan filename cur (words.map Word.crlf) (crlf cs) =
      (scan filename cur words cs).map (List.map Command.crlf) := by
  fun_induction scan filename cur words cs with
  | case1 cur words =>
    rw [crlf_nil, scan_nil, finish_crlf]
    rfl
  | case2 cur words c cs hgap ih =>
    rw [unjoined_skip (by simp [hgap])] at h
    rw [crlf_cons (ne_of_gap hgap), scan_gap hgap, ih h]
  | case3 cur words c cs hgap hend ih =>
    rw [unjoined_skip (by simpa [hgap] using hend)] at h
    have hmore := ih h
    rw [List.map_nil] at hmore
    rw [scan_crlf_end (by simpa using hend), hmore, finish_crlf]
    cases scan filename (cur.step c) [] cs with
    | error e => rfl
    | ok more => exact congrArg Except.ok List.map_append.symm
  | case4 cur words cs hwords _ _ ih =>
    obtain rfl : words = [] := List.isEmpty_iff.1 hwords
    rw [unjoined_comment, Bool.and_eq_true] at h
    rw [← ih h.2]
    refine Eq.trans ?_ (scanPast_crlf filename cur false ('#' :: cs) (by simpa [quiet] using h.1))
    rw [crlf_cons (by decide)]
    exact scan_comment _
  | case5 cur words cs hwords =>
    rw [crlf_cons (by decide), scan_stray (by simpa using hwords)]
    rfl
  | case6 cur words c cs _ _ _ span rest hjoin =>
    rw [unjoined_joined (by rw [hjoin]; rfl)] at h
    cases h
  | case7 cur words c cs hgap hend hcomment hjoin fault hread =>
    have hsep : atSeparator (c :: cs) = false := not_atSeparator hgap hend hjoin
    obtain ⟨hcrlf, hsep'⟩ := crlf_cons_of_not_atSeparator hsep
    have hread' : readWord (c :: crlf cs) = .error fault := by
      rw [← hcrlf, readWord_crlf, hread]
      rfl
    rw [hcrlf, scan_unread hsep' hcomment hread']
    rfl
  | case8 cur words c cs hgap hend hcomment hjoin kind t hread after hrest word ih =>
    have hsep : atSeparator (c :: cs) = false := not_atSeparator hgap hend hjoin
    obtain ⟨hcrlf, hsep'⟩ := crlf_cons_of_not_atSeparator hsep
    rw [unjoined_read hsep hcomment hread, hrest, Bool.not_true, Bool.false_or,
      Bool.and_eq_true] at h
    have hnone : continuation? t.rest = none := continuation?_of_unjoined fun _ => h.2
    have hread' := readWord_crlf_apart hread hsep (by simpa using h.1) hnone
    have hrest' : atSeparator (crlf t.rest) = true := (atSeparator_crlf hnone).trans hrest
    rw [hcrlf, scan_read hsep' hcomment hread' hrest', ← ih h.2]
    simp [word, Word.crlf, advance_crlf, after]
  | case9 cur words c cs hgap hend hcomment hjoin kind t hread after hrest =>
    have hsep : atSeparator (c :: cs) = false := not_atSeparator hgap hend hjoin
    obtain ⟨hcrlf, hsep'⟩ := crlf_cons_of_not_atSeparator hsep
    have hnone : continuation? t.rest = none :=
      continuation?_of_unjoined fun hsome => absurd hsome hrest
    rw [unjoined_read hsep hcomment hread, Bool.and_eq_true] at h
    have hread' := readWord_crlf_apart hread hsep (by simpa using h.1) hnone
    have hrest' : atSeparator (crlf t.rest) = false :=
      (atSeparator_crlf hnone).trans (by simpa using hrest)
    rw [hcrlf, scan_extra hsep' hcomment hread' hrest', advance_crlf]
    rfl

end RadarTimeline.Script
