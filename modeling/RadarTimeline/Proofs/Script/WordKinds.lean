import RadarTimeline.Proofs.Script.Groups
import RadarTimeline.Proofs.Script.Spans

namespace RadarTimeline.Script

/-- A stretch of backslashes that escape one unit each. The last one may have nothing to escape. -/
def onlyEscapes : List Char → Bool
  | [] => true
  | ['\\'] => true
  | '\\' :: c :: cs => Text.unitCount c = 1 && onlyEscapes cs
  | _ => false

/-- A span is a bracket group with `tail` after it. -/
def IsGroupThen (tail span : List Char) : Prop :=
  ∃ group, span = group ++ tail ∧ group.head? = some '[' ∧ bracketGroup? group = some (group, [])

/-- The span that follows `before` in a text opens a bracket group, and the search for its end stops
at the last character of the span. -/
def IsGroupAt (text : String) (before span : List Char) : Prop :=
  span.head? = some '[' ∧
    closeIndex? bracketGroup? text (Text.unitLength before) =
      some (Text.unitLength (before ++ span) - 1)

/-- The kind of a word tells whether its span is a bracket group of the text, and its text is then
the script in the group. -/
structure KindFits (text : String) (before : List Char) (s : Spot) : Prop where
  bracketed : s.word.kind = .bracketed ↔ IsGroupAt text before s.span
  bare : s.word.kind = .bare ↔
    ¬IsGroupAt text before s.span ∧ s.span.head? ≠ some '{' ∧ s.span.head? ≠ some '"'
  script : s.word.kind = .bracketed → s.span = '[' :: (s.word.text.toList ++ [']'])

def sourceOf (spots : List Spot) : List Char := spots.flatMap fun s => s.gap ++ s.span

variable {line : Position} {text : String} {before cs span rest group tail : List Char}
    {fresh : Bool}
  {spots done todo : List Spot} {s : Spot} {parts : Nat} {kind : WordKind} {t : Taken}

theorem onlyEscapes_cons {c : Char} (h : c ≠ '\\') (cs : List Char) :
    onlyEscapes (c :: cs) = false := by
  unfold onlyEscapes
  split <;> simp_all

/-- A stretch that counts no parts is made of escapes. -/
theorem bareBody_parts (h : bareBody cs = .ok (parts, span, rest)) :
    parts = 0 ↔ onlyEscapes span = true := by
  fun_induction bareBody cs generalizing parts span rest with
  | case1 | case2 | case4 =>
    cases h
    simp [onlyEscapes]
  | case3 c cs hc ih =>
    obtain ⟨⟨parts, span, rest⟩, hbody, heq⟩ := map_eq_ok_iff.1 h
    cases heq
    have hpos := Text.unitCount_pos c
    rw [onlyEscapes, Bool.and_eq_true, ← ih hbody, decide_eq_true_eq]
    omega
  | case5 => cases h
  | case6 cs group rest _ _ _ hgroup ih =>
    obtain ⟨⟨parts, span, rest⟩, hbody, heq⟩ := map_eq_ok_iff.1 h
    cases heq
    obtain ⟨c, g, rfl⟩ := List.exists_cons_of_ne_nil (bracketGroup?_ne_nil hgroup)
    obtain ⟨rfl, -⟩ := List.cons.inj (bracketGroup?_append hgroup)
    simp [onlyEscapes_cons (show '[' ≠ '\\' by decide)]
  | case7 c cs _ hescape _ _ ih =>
    obtain ⟨⟨parts, span, rest⟩, hbody, heq⟩ := map_eq_ok_iff.1 h
    cases heq
    by_cases hc : c = '\\'
    · -- a backslash that escapes nothing is the last character
      subst hc
      cases cs with
      | nil =>
        rw [bareBody] at hbody
        cases hbody
        simp [onlyEscapes]
      | cons d ds => exact (hescape d ds rfl rfl).elim
    · simp [hc, onlyEscapes_cons hc]

theorem IsGroupThen.unique {tail' : List Char} (h : IsGroupThen tail span)
    (h' : IsGroupThen tail' span) :
    tail = tail' := by
  obtain ⟨group, rfl, -, hgroup⟩ := h
  obtain ⟨group', happend, -, hgroup'⟩ := h'
  have hsplit : bracketGroup? (group ++ tail) = some (group, tail) :=
    Expr.closeBracket?_append_right hgroup tail
  have hsplit' : bracketGroup? (group' ++ tail') = some (group', tail') :=
    Expr.closeBracket?_append_right hgroup' tail'
  rw [happend, hsplit'] at hsplit
  cases hsplit
  rfl

theorem IsGroupThen.head? (h : IsGroupThen tail span) : span.head? = some '[' := by
  obtain ⟨group, rfl, hopen, -⟩ := h
  rw [List.head?_append, hopen]
  rfl

theorem bareBody_group (h : bareBody ('[' :: cs) = .ok (parts, span, rest)) :
    ∃ tail, IsGroupThen tail span ∧ (parts = 1 ↔ onlyEscapes tail = true) := by
  rw [bareBody] at h
  · rw [if_neg (by decide), if_pos rfl] at h
    split at h
    · cases h
    · next group more hgroup =>
      obtain ⟨⟨parts, tail, rest⟩, hbody, heq⟩ := map_eq_ok_iff.1 h
      cases heq
      refine ⟨tail, ⟨group, rfl, ?_, closeBracket?_self hgroup⟩, ?_⟩
      · have happend := congrArg List.head? (bracketGroup?_append hgroup)
        rwa [List.head?_append_of_ne_nil _ (bracketGroup?_ne_nil hgroup)] at happend
      · rw [← bareBody_parts hbody]
        omega
  · simp
  · simp

theorem bareBody_bracketed_iff (h : bareBody cs = .ok (parts, span, rest)) (hne : span ≠ []) :
    cs.head? = some '[' ∧ parts = 1 ↔ ∃ tail, IsGroupThen tail span ∧ onlyEscapes tail = true := by
  constructor
  · rintro ⟨hopen, hone⟩
    obtain ⟨body, rfl⟩ := List.head?_eq_some_iff.1 hopen
    obtain ⟨tail, hthen, hparts⟩ := bareBody_group h
    exact ⟨tail, hthen, hparts.1 hone⟩
  · rintro ⟨tail, hthen, hescapes⟩
    have hopen : cs.head? = some '[' := by
      rw [← bareBody_append h, List.head?_append_of_ne_nil _ hne, hthen.head?]
    obtain ⟨body, rfl⟩ := List.head?_eq_some_iff.1 hopen
    obtain ⟨tail', hthen', hparts⟩ := bareBody_group h
    obtain rfl := hthen.unique hthen'
    exact ⟨hopen, hparts.2 hescapes⟩

/-- How the kind of a word depends on its span. -/
theorem readWord_kind (h : readWord cs = .ok (kind, t)) (hne : t.span ≠ []) :
    (kind = .braced ↔ t.span.head? = some '{') ∧ (kind = .quoted ↔ t.span.head? = some '"') ∧
      (kind = .bracketed ↔ ∃ tail, IsGroupThen tail t.span ∧ onlyEscapes tail = true) := by
  have hhead : cs.head? = t.span.head? := by
    rw [← readWord_append h, List.head?_append_of_ne_nil _ hne]
  have hgroup : t.span.head? ≠ some '[' → ¬∃ tail, IsGroupThen tail t.span ∧
    onlyEscapes tail = true := by
    rintro hopen ⟨tail, hthen, -⟩
    exact hopen hthen.head?
  unfold readWord at h
  split at h
  · split at h
    · cases h
    · cases h
      have hno := hgroup (by simp [← hhead])
      simp [hno, ← hhead]
  · obtain ⟨t, -, heq⟩ := map_eq_ok_iff.1 h
    cases heq
    have hno := hgroup (by simp [← hhead])
    simp [hno, ← hhead]
  · next hbrace hquote =>
    obtain ⟨⟨parts, span, rest⟩, hbare, heq⟩ := map_eq_ok_iff.1 h
    have hplain : cs.head? ≠ some '{' ∧ cs.head? ≠ some '"' := by
      simp only [ne_eq, List.head?_eq_some_iff, not_exists]
      exact ⟨hbrace, hquote⟩
    dsimp only at heq
    split at heq
    all_goals
      next hone =>
      cases heq
      rw [Bool.and_eq_true, decide_eq_true_eq, decide_eq_true_eq,
        bareBody_bracketed_iff hbare hne] at hone
      simp [hone, ← hhead, hplain]

/-- A span is a group of the text around it exactly if it is one on its own. -/
theorem isGroupAt_iff (htext : text.toList = before ++ (span ++ rest)) :
    IsGroupAt text before span ↔ IsGroupThen [] span := by
  have hsearch : span ≠ [] → (_ ↔ bracketGroup? (span ++ rest) = some (span, rest)) :=
    closeIndex?_eq_iff closeBracket?_append closeBracket?_ne_nil htext
  constructor
  · rintro ⟨hopen, hclose⟩
    have hne : span ≠ [] := by
      rintro rfl
      cases hopen
    exact ⟨span, (List.append_nil span).symm, hopen, closeBracket?_self ((hsearch hne).1 hclose)⟩
  · rintro ⟨group, rfl, hopen, hgroup⟩
    rw [List.append_nil] at hsearch ⊢
    have hsplit : bracketGroup? (group ++ rest) = some (group, rest) :=
      Expr.closeBracket?_append_right hgroup rest
    exact ⟨hopen, (hsearch (bracketGroup?_ne_nil hgroup)).2 hsplit⟩

theorem IsGroupThen.eq_inside (h : IsGroupThen [] span) : span = '[' :: (inside span ++ [']']) := by
  obtain ⟨group, rfl, hopen, hgroup⟩ := h
  rw [List.append_nil]
  obtain ⟨body, rfl⟩ := List.head?_eq_some_iff.1 hopen
  have hlast : ('[' :: body).getLast? = some ']' := closeBracket?_getLast hgroup
  obtain ⟨init, hinit⟩ := List.getLast?_eq_some_iff.1 hlast
  cases init with
  | nil => simp at hinit
  | cons c inner =>
    obtain ⟨rfl, rfl⟩ := List.cons.inj hinit
    simp [inside]

/-- The kind of a word fits unless its span is a group with escapes behind it. -/
theorem kindFits_iff (htext : text.toList = before ++ (s.span ++ rest)) (hne : s.span ≠ [])
    (hread : s.IsRead) :
    KindFits text before s ↔ ∀ tail, IsGroupThen tail s.span → onlyEscapes tail = true →
    tail = [] := by
  obtain ⟨more, hread⟩ := hread
  obtain ⟨hbraced, hquoted, hbracketed⟩ := readWord_kind hread hne
  dsimp only at hbraced hquoted hbracketed
  have hat : IsGroupAt text before s.span ↔ IsGroupThen [] s.span := isGroupAt_iff htext
  constructor
  · intro hfits tail hthen hescapes
    have hgroup := hat.1 (hfits.bracketed.1 (hbracketed.2 ⟨tail, hthen, hescapes⟩))
    exact hthen.unique hgroup
  · intro hnone
    have hkind : s.word.kind = .bracketed ↔ IsGroupThen [] s.span := by
      rw [hbracketed]
      constructor
      · rintro ⟨tail, hthen, hescapes⟩
        obtain rfl := hnone tail hthen hescapes
        exact hthen
      · exact fun hthen => ⟨[], hthen, rfl⟩
    refine ⟨hkind.trans hat.symm, ?_, fun hk => ?_⟩
    · rw [hat, ← hkind, ne_eq, ← hbraced, ne_eq, ← hquoted]
      cases s.word.kind <;> simp
    · have hcovers := (readWord_covers hread).1
      rw [hk] at hcovers
      have htext : s.word.text.toList = inside s.span := hcovers.2
      rw [htext]
      exact (hkind.1 hk).eq_inside

theorem Laid.place (h : Laid line before fresh cs spots) (hs : spots = done ++ s :: todo) :
    ∃ rest, cs = sourceOf done ++ s.gap ++ (s.span ++ rest) ∧
      Placed line (before ++ (sourceOf done ++ s.gap)) s.span s.word := by
  induction done generalizing before fresh cs spots with
  | nil =>
    subst hs
    cases h with
    | word skips placed apart next => exact ⟨_, rfl, placed⟩
  | cons d done ih =>
    subst hs
    cases h with
    | word skips placed apart next =>
      obtain ⟨rest, rfl, hplaced⟩ := ih next rfl
      exact ⟨rest, by simp [sourceOf], by simpa [sourceOf] using hplaced⟩

/-- Of every word of a script that can be read, the kind is told by the span: braces and quotes by
the character that opens them, and a bracketed word by a bracket group with nothing but escapes
behind it. So the kind fits, with a bracketed word being one bracket group and its text the script
in it, exactly for the words that are no group with escapes behind it. -/
theorem readScript_wordKinds {filename : String} {commands : List Command}
    (h : readScript text filename line = .ok commands) :
    ∃ spots, Laid line [] true text.toList spots ∧
      commands.map Command.words =
        (spots.splitBy fun _ s => !hasBreak endsCommand s.gap).map (List.map Spot.word) ∧
      ∀ done s todo, spots = done ++ s :: todo →
        (s.word.kind = .braced ↔ s.span.head? = some '{') ∧
        (s.word.kind = .quoted ↔ s.span.head? = some '"') ∧
        (s.word.kind = .bracketed ↔ ∃ tail, IsGroupThen tail s.span ∧ onlyEscapes tail = true) ∧
        (KindFits text (sourceOf done ++ s.gap) s ↔
          ∀ tail, IsGroupThen tail s.span → onlyEscapes tail = true → tail = []) := by
  have hstart : (⟨line, 1⟩ : Cursor) = (⟨line, 1⟩ : Cursor).advance [] := rfl
  obtain ⟨spots, ⟨hlaid, hread⟩, hwords, -⟩ := scan_spots hstart h
  refine ⟨spots, hlaid, hwords.trans (grouped_eq_splitBy spots), fun done s todo hs => ?_⟩
  obtain ⟨rest, htext, hplaced⟩ := hlaid.place hs
  have hne : s.span ≠ [] := by
    obtain ⟨init, c, hspan, -⟩ := hplaced.last
    simp [hspan]
  have hs : s.IsRead := hread s (by simp [hs])
  obtain ⟨more, hword⟩ := hs
  obtain ⟨hbraced, hquoted, hbracketed⟩ := readWord_kind hword hne
  exact ⟨hbraced, hquoted, hbracketed, kindFits_iff htext hne ⟨more, hword⟩⟩

def escapedScript : String := "set \x7by\x7d \"z\" [expr 1] a[b] [a]\\x"

def escapedCommands : List Command :=
  [⟨"Console", ⟨.bare, "set", 1, 1, 3⟩, [⟨.braced, "y", 1, 5, 7⟩, ⟨.quoted, "z", 1, 9, 11⟩,
    ⟨.bracketed, "expr 1", 1, 13, 20⟩, ⟨.bare, "a[b]", 1, 22, 25⟩,
    ⟨.bracketed, "a]\\", 1, 27, 31⟩]⟩]

theorem escapedScript_wordKinds : readScript escapedScript "Console" 1 = .ok escapedCommands ∧
    ∃ spots, Laid 1 [] true escapedScript.toList spots ∧
      escapedCommands.map Command.words =
        (spots.splitBy fun _ s => !hasBreak endsCommand s.gap).map (List.map Spot.word) ∧
      ∀ done s todo, spots = done ++ s :: todo →
        (s.word.kind = .braced ↔ s.span.head? = some '{') ∧
        (s.word.kind = .quoted ↔ s.span.head? = some '"') ∧
        (s.word.kind = .bracketed ↔ ∃ tail, IsGroupThen tail s.span ∧ onlyEscapes tail = true) ∧
        (KindFits escapedScript (sourceOf done ++ s.gap) s ↔
          ∀ tail, IsGroupThen tail s.span → onlyEscapes tail = true → tail = []) := by
  have h : readScript escapedScript "Console" 1 = .ok escapedCommands := by
    have hread : (readScript escapedScript "Console" 1).toOption = some escapedCommands := by
      decide +kernel
    cases hr : readScript escapedScript "Console" 1 <;> simp_all [Except.toOption]
  exact ⟨h, readScript_wordKinds h⟩

/-- The last word of the script, alone, is read as a bracketed word with a text that is no script
between two brackets, and the group at its start ends before it does. -/
theorem escapedGroup_bracketed :
    (readScript "[a]\\x" "Console" 1).toOption =
        some [⟨"Console", ⟨.bracketed, "a]\\", 1, 1, 5⟩, []⟩] ∧
      closeIndex? bracketGroup? "[a]\\x" 0 = some 2 := by
  decide +kernel

end RadarTimeline.Script
