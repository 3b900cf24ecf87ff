import RadarTimeline.Proofs.Script.ListWords
import RadarTimeline.Proofs.Script.WordText

namespace RadarTimeline.Script

def braced (name : List Char) : List Char := '$' :: '{' :: (name ++ ['}'])

/-- No character of a text ends the word that the text is in, and all of its groups are closed in
it. Escaped characters and groups end no word; a backslash at the end of the text escapes what comes
next. -/
def undivided (ends : Char → Bool) : List Char → Bool
  | [] => true
  | ['\\'] => true
  | '\\' :: '\n' :: _ => false
  | '\\' :: _ :: cs => undivided ends cs
  | c :: cs =>
    if ends c then false
    else if c = '[' then
      match _h : bracketGroup? (c :: cs) with
      | some (_, rest) => undivided ends rest
      | none => false
    else undivided ends cs
termination_by cs => cs.length
decreasing_by all_goals grind

def endsBare (c : Char) : Bool := isGap c || c = '\n' || c = ';'

def endsQuoted (c : Char) : Bool := c = '"'

/-- How the text of a word is read from a place in it on. -/
structure ReadsText (ends : Char → Bool) (read : List Char → Option Taken) : Prop where
  escaped : ∀ {c cs}, c ≠ '\n' → read ('\\' :: c :: cs) =
    (read cs).map (Taken.cover ['\\', c] ['\\', c])
  grouped : ∀ {cs group rest}, bracketGroup? ('[' :: cs) = some (group, rest) →
    read ('[' :: cs) = (read rest).map (Taken.cover group group)
  unclosed : ∀ {cs}, bracketGroup? ('[' :: cs) = none → read ('[' :: cs) = none
  plain : ∀ {c cs}, ends c = false → c ≠ '\\' → c ≠ '[' →
    read (c :: cs) = (read cs).map (Taken.cover [c] [c])
  ended : ∀ {c cs t}, ends c = true → read (c :: cs) = some t → t.text = []
  joined : ∀ {cs t}, read ('\\' :: '\n' :: cs) = some t → t.text.head? ≠ some '\\'

variable {ends : Char → Bool} {read : List Char → Option Taken} {name cs rest pre more : List Char}
  {t : Taken}

theorem ne_escape {c : Char} (hlast : c = '\\' → cs = [] → False)
    (hescape : ∀ d ds, c = '\\' → cs = d :: ds → False) : c ≠ '\\' := by
  rintro rfl
  cases cs with
  | nil => exact hlast rfl rfl
  | cons d ds => exact hescape d ds rfl rfl

theorem cover_cover (a b : List Char) (x : Option Taken) :
    (x.map (Taken.cover b b)).map (Taken.cover a a) = x.map (Taken.cover (a ++ b) (a ++ b)) := by
  cases x <;> simp [Taken.cover]

theorem exists_of_map_cover {x : Option Taken} (h : x.map (Taken.cover pre pre) = some t)
    (ht : t.text = pre ++ more) : ∃ u, x = some u ∧ u.text = more := by
  obtain ⟨u, hu, rfl⟩ := Option.map_eq_some_iff.1 h
  exact ⟨u, hu, List.append_cancel_left ht⟩

/-- A group that is closed only behind a text does not end with the character after the text. -/
theorem group_append_ne {group text : List Char} (hnone : bracketGroup? cs = none)
    (hgroup : bracketGroup? (cs ++ rest) = some (group, more)) : group ++ text ≠ cs ++ ['}'] := by
  intro htext
  rcases List.eq_nil_or_concat' text with rfl | ⟨text, c, rfl⟩
  · have hlast : group.getLast? = some ']' := closeBracket?_getLast hgroup
    rw [List.append_nil] at htext
    rw [htext, List.getLast?_concat] at hlast
    exact absurd hlast (by decide)
  · rw [← List.append_assoc] at htext
    obtain ⟨rfl, -⟩ := List.append_inj' htext rfl
    have hself : bracketGroup? (group ++ text) = some (group, text) :=
      Expr.closeBracket?_append_right (closeBracket?_self hgroup) text
    rw [hnone] at hself
    cases hself

namespace ReadsText

/-- A text that is not divided is read whole, up to the brace after it. -/
theorem read_undivided (h : ReadsText ends read) (hclose : ends '}' = false)
    (hname : undivided ends name = true) (cs : List Char) :
    read (name ++ '}' :: cs) = (read cs).map (Taken.cover (name ++ ['}']) (name ++ ['}'])) := by
  fun_induction undivided ends name with
  | case1 => exact h.plain hclose (by decide) (by decide)
  | case2 => exact h.escaped (by decide)
  | case3 => cases hname
  | case4 c rest hline ih =>
    rw [List.cons_append, List.cons_append, h.escaped hline, ih hname, cover_cover]
    rfl
  | case5 => cases hname
  | case6 rest group after _ _ _ _ hgroup ih =>
    have hmore : bracketGroup? ('[' :: (rest ++ '}' :: cs)) = some (group, after ++ '}' :: cs) :=
      Expr.closeBracket?_append_right hgroup ('}' :: cs)
    rw [List.cons_append, h.grouped hmore, ih hname, cover_cover, ← List.append_assoc,
      bracketGroup?_append hgroup]
  | case7 => cases hname
  | case8 c rest hlast hline hescape hend hopen ih =>
    have hne := ne_escape hlast hescape
    rw [List.cons_append, h.plain (by simpa using hend) hne hopen, ih hname, cover_cover]
    rfl

/-- A text that is divided is not all of a word up to the brace after it. -/
theorem undivided_of_read (h : ReadsText ends read) (hread : read (name ++ '}' :: cs) = some t)
    (ht : t.text = name ++ ['}']) : undivided ends name = true := by
  fun_induction undivided ends name generalizing t with
  | case1 => rfl
  | case2 => rfl
  | case3 =>
    refine absurd ?_ (h.joined hread)
    rw [ht]
    rfl
  | case4 c rest hline ih =>
    rw [List.cons_append, List.cons_append, h.escaped hline] at hread
    obtain ⟨u, hu, htext⟩ := exists_of_map_cover hread ht
    exact ih hu htext
  | case5 _ _ _ _ _ hend =>
    rw [h.ended hend hread] at ht
    cases ht
  | case6 rest group after _ _ _ _ hgroup ih =>
    have hmore : bracketGroup? ('[' :: (rest ++ '}' :: cs)) = some (group, after ++ '}' :: cs) :=
      Expr.closeBracket?_append_right hgroup ('}' :: cs)
    rw [List.cons_append, h.grouped hmore] at hread
    rw [← bracketGroup?_append hgroup, List.append_assoc] at ht
    obtain ⟨u, hu, htext⟩ := exists_of_map_cover hread ht
    exact ih hu htext
  | case7 rest _ _ _ hend hgroup =>
    cases hmore : bracketGroup? ('[' :: (rest ++ '}' :: cs)) with
    | none =>
      rw [List.cons_append, h.unclosed hmore] at hread
      cases hread
    | some split =>
      rw [List.cons_append, h.grouped hmore] at hread
      obtain ⟨u, hu, rfl⟩ := Option.map_eq_some_iff.1 hread
      exact absurd ht (group_append_ne hgroup hmore)
  | case8 c rest hlast hline hescape hend hopen ih =>
    have hne := ne_escape hlast hescape
    rw [List.cons_append, h.plain (by simpa using hend) hne hopen] at hread
    obtain ⟨u, hu, htext⟩ := exists_of_map_cover hread ht
    exact ih hu htext

theorem read_braced (h : ReadsText ends read) (hdollar : ends '$' = false)
    (hopen : ends '{' = false)
    (hclose : ends '}' = false) (hname : undivided ends name = true) (cs : List Char) :
    read (braced name ++ cs) = (read cs).map (Taken.cover (braced name) (braced name)) := by
  have hread := h.read_undivided hclose hname cs
  have hsource : braced name ++ cs = '$' :: '{' :: (name ++ '}' :: cs) := by simp [braced]
  rw [hsource, h.plain hdollar (by decide) (by decide),
    h.plain hopen (by decide) (by decide), hread, cover_cover, cover_cover]
  rfl

/-- Where a word has no more text, it is a reference in braces exactly if the name is not
divided. -/
theorem braced_iff (h : ReadsText ends read) (hdollar : ends '$' = false) (hopen : ends '{' = false)
    (hclose : ends '}' = false) (hcs : read cs = some t) (ht : t.text = []) :
    read (braced name ++ cs) = some (t.cover (braced name) (braced name)) ↔
      undivided ends name = true := by
  constructor
  · intro hread
    have hsource : braced name ++ cs = '$' :: '{' :: (name ++ '}' :: cs) := by simp [braced]
    rw [hsource, h.plain hdollar (by decide) (by decide), h.plain hopen (by decide) (by decide),
      cover_cover]
      at hread
    obtain ⟨u, hu, htext⟩ :=
      exists_of_map_cover hread (by rw [Taken.cover, ht, List.append_nil]; rfl)
    exact h.undivided_of_read hu htext
  · intro hname
    rw [h.read_braced hdollar hopen hclose hname, hcs]
    rfl

end ReadsText

def bareText? (cs : List Char) : Option Taken :=
  (bareBody cs).toOption.map fun p => ⟨p.2.1, p.2.1, p.2.2⟩

theorem toOption_map {ε α β : Type} (f : α → β) (x : Except ε α) :
    (x.map f).toOption = x.toOption.map f := by
  cases x <;> rfl

theorem bareText?_end {c : Char} (h : endsBare c = true) (cs : List Char) :
    bareText? (c :: cs) = some ⟨[], [], c :: cs⟩ := by
  have hescape : c ≠ '\\' := by
    rintro rfl
    exact absurd h (by decide)
  rw [bareText?, bareBody, if_pos (by simpa [endsBare] using h)]
  · rfl
  all_goals simp [hescape]

theorem bareText?_readsText : ReadsText endsBare bareText? where
  escaped {c cs} hc := by
    rw [bareText?, bareText?, bareBody, toOption_map, Option.map_map, Option.map_map]
    · rfl
    · exact hc
  grouped {cs group rest} h := by
    rw [bareText?, bareText?, bareBody, if_neg (by decide), if_pos rfl]
    · split
      · next hnone => rw [h] at hnone; cases hnone
      · next hgroup =>
        rw [h] at hgroup
        cases hgroup
        rw [toOption_map, Option.map_map, Option.map_map]
        rfl
    all_goals simp
  unclosed {cs} h := by
    rw [bareText?, bareBody, if_neg (by decide), if_pos rfl]
    · split
      · rfl
      · next hgroup => rw [h] at hgroup; cases hgroup
    all_goals simp
  plain {c cs} hend hescape hopen := by
    rw [bareText?, bareText?, bareBody, if_neg (by simpa [endsBare] using hend), if_neg hopen,
      toOption_map, Option.map_map, Option.map_map]
    · rfl
    all_goals simp [hescape]
  ended {c cs t} hend h := by
    rw [bareText?_end hend] at h
    cases h
    rfl
  joined {cs t} h := by
    rw [bareText?, bareBody] at h
    cases h
    simp

theorem quotedBody_readsText : ReadsText endsQuoted fun cs => (quotedBody cs).toOption where
  escaped {c cs} hc := by
    rw [quotedBody, toOption_map]
    exact hc
  grouped {cs group rest} h := by
    rw [quotedBody, if_neg (by decide), if_pos rfl]
    · split
      · next hnone => rw [h] at hnone; cases hnone
      · next hgroup =>
        rw [h] at hgroup
        cases hgroup
        rw [toOption_map]
    all_goals simp
  unclosed {cs} h := by
    rw [quotedBody, if_neg (by decide), if_pos rfl]
    · split
      · rfl
      · next hgroup => rw [h] at hgroup; cases hgroup
    all_goals simp
  plain {c cs} hend hescape hopen := by
    rw [quotedBody, if_neg (by simpa [endsQuoted] using hend), if_neg hopen, toOption_map]
    all_goals simp [hescape]
  ended {c cs t} hend h := by
    obtain rfl : c = '"' := by simpa [endsQuoted] using hend
    rw [quotedBody, if_pos rfl] at h
    · cases h
      rfl
    all_goals simp
  joined {cs t} h := by
    rw [quotedBody, toOption_map] at h
    obtain ⟨u, -, rfl⟩ := Option.map_eq_some_iff.1 h
    simp [Taken.cover]

theorem bareText?_separator (h : atSeparator cs = true) : bareText? cs = some ⟨[], [], cs⟩ := by
  rw [bareText?, bareBody_separator h]
  rfl

theorem readWord_bare_iff (hrest : atSeparator rest = true) :
    readWord (braced name ++ rest) = .ok (.bare, ⟨braced name, braced name, rest⟩) ↔
      undivided endsBare name = true := by
  rw [← bareText?_readsText.braced_iff (by decide) (by decide) (by decide)
    (bareText?_separator hrest) rfl]
  have hword : readWord (braced name ++ rest) =
      (bareBody (braced name ++ rest)).map fun p => (.bare, ⟨p.2.1, p.2.1, p.2.2⟩) := rfl
  rw [hword, bareText?]
  cases bareBody (braced name ++ rest) <;> simp [Except.map, Except.toOption, Taken.cover]

/-- A reference in braces is all of a quoted word exactly if no quote and no joined line divides its
name. -/
theorem readWord_quoted_iff (rest : List Char) :
    readWord ('"' :: (braced name ++ '"' :: rest)) =
        .ok (.quoted, ⟨'"' :: (braced name ++ ['"']), braced name, rest⟩) ↔
      undivided endsQuoted name = true := by
  have hend : (quotedBody ('"' :: rest)).toOption = some ⟨['"'], [], rest⟩ := by
    rw [quotedBody, if_pos rfl]
    · rfl
    all_goals simp
  rw [← quotedBody_readsText.braced_iff (by decide) (by decide) (by decide) hend rfl]
  have hword : readWord ('"' :: (braced name ++ '"' :: rest)) =
      (quotedBody (braced name ++ '"' :: rest)).map fun t => (.quoted, t.cover ['"'] []) := rfl
  rw [hword]
  cases quotedBody (braced name ++ '"' :: rest) with
  | error => simp [Except.map, Except.toOption]
  | ok t =>
    obtain ⟨span, text, more⟩ := t
    simp [Except.map, Except.toOption, Taken.cover]

end RadarTimeline.Script
