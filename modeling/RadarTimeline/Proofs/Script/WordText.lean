import RadarTimeline.Script.Reader
import RadarTimeline.Proofs.Expr.Scanning

namespace RadarTimeline.Script

/-- A text with the line breaks that a backslash joins, and the gaps after them, written as one
space. A backslash that is escaped itself joins nothing. -/
def joinLines : List Char → List Char
  | [] => []
  | '\\' :: '\n' :: cs => ' ' :: joinLines (cs.dropWhile isGap)
  | '\\' :: c :: cs => '\\' :: c :: joinLines cs
  | c :: cs => c :: joinLines cs
termination_by cs => cs.length
decreasing_by all_goals grind [length_dropWhile_isGap]

/-- The same outside of bracket groups, which stay as they are. -/
def joinLinesOutside : List Char → List Char
  | [] => []
  | '\\' :: '\n' :: cs => ' ' :: joinLinesOutside (cs.dropWhile isGap)
  | '\\' :: c :: cs => '\\' :: c :: joinLinesOutside cs
  | c :: cs =>
    if c = '[' then
      match _h : bracketGroup? (c :: cs) with
      | some (group, rest) => group ++ joinLinesOutside rest
      | none => c :: joinLinesOutside cs
    else c :: joinLinesOutside cs
termination_by cs => cs.length
decreasing_by all_goals grind [length_dropWhile_isGap]

/-- A text with some of its line breaks, each with a backslash in front of it and an indentation
behind, written as one space. -/
inductive SomeJoined : List Char → List Char → Prop
  | nil : SomeJoined [] []
  | kept (c : Char) {cs text : List Char} (h : SomeJoined cs text) :
    SomeJoined (c :: cs) (c :: text)
  | joined (indent : List Char) {cs text : List Char} (h : SomeJoined cs text) :
      SomeJoined ('\\' :: '\n' :: (indent ++ cs)) (' ' :: text)

/-- The text of a word of a kind over a span. -/
def Covers : WordKind → List Char → List Char → Prop
  | .bare, span, text => text = span
  | .bracketed, span, text => span.head? = some '[' ∧ text = inside span
  | .braced, span, text => ∃ inner, span = '{' :: (inner ++ ['}']) ∧ text = joinLines inner
  | .quoted, span, text => ∃ inner, span = '"' :: (inner ++ ['"']) ∧ text = joinLinesOutside inner

variable {cs a b span rest inner : List Char} {c : Char} {t : Taken} {kind : WordKind}

theorem dropWhile_takeWhile_append (h : a ++ b = cs.dropWhile isGap) :
    (cs.takeWhile isGap ++ a).dropWhile isGap = a := by
  refine Expr.dropWhile_exact (fun c hc => ?_) fun c hc => ?_
  · exact List.all_eq_true.1 List.all_takeWhile c hc
  · have hhead : (cs.dropWhile isGap).head? = some c := by
      rw [← h, List.head?_append, show a.head? = some c from hc]
      rfl
    have := List.head?_dropWhile_not isGap cs
    rw [hhead] at this
    exact this

/-- A body ends with what closes it, and its text is what is in front of that, joined. -/
def Joins (join : List Char → List Char) (close : Char) (t : Taken) : Prop :=
  ∃ inner, t.span = inner ++ [close] ∧ t.text = join inner

variable {join : List Char → List Char} {close : Char} {pre text : List Char}

theorem Joins.cover (h : Joins join close t)
    (hjoin : ∀ inner, t.span = inner ++ [close] → join (pre ++ inner) = text ++ join inner) :
    Joins join close (t.cover pre text) := by
  obtain ⟨inner, hspan, htext⟩ := h
  refine ⟨pre ++ inner, ?_, ?_⟩
  · rw [Taken.cover, hspan, List.append_assoc]
  · rw [Taken.cover, hjoin inner hspan, htext]

theorem joinLines_cons (h : c ≠ '\\') (cs : List Char) :
    joinLines (c :: cs) = c :: joinLines cs := by
  rw [joinLines] <;> simp [h]

/-- The body of a braced word is joined in front of its brace. -/
theorem bracedBody_joins {depth : Nat} (h : bracedBody depth cs = some t) :
    Joins joinLines '}' t := by
  fun_induction bracedBody depth cs generalizing t with
  | case1 => cases h
  | case2 depth cs ih =>
    obtain ⟨t, ht, rfl⟩ := Option.map_eq_some_iff.1 h
    refine (ih ht).cover fun inner hinner => ?_
    have hrest := bracedBody_append ht
    rw [hinner, List.append_assoc] at hrest
    rw [List.cons_append, List.cons_append, joinLines, dropWhile_takeWhile_append hrest]
    rfl
  | case3 depth c cs hc ih =>
    obtain ⟨t, ht, rfl⟩ := Option.map_eq_some_iff.1 h
    refine (ih ht).cover fun inner _ => ?_
    rw [List.cons_append, List.cons_append, joinLines]
    · rfl
    · exact hc
  | case4 =>
    cases h
    exact ⟨[], rfl, by rw [joinLines]⟩
  | case5 _ _ _ _ ih =>
    obtain ⟨t, ht, rfl⟩ := Option.map_eq_some_iff.1 h
    exact (ih ht).cover fun inner _ => joinLines_cons (by decide) _
  | case6 depth c cs _ hescape _ ih =>
    obtain ⟨t, ht, rfl⟩ := Option.map_eq_some_iff.1 h
    have hne : c ≠ '\\' := Expr.ne_backslash hescape (by rw [bracedBody]) ht
    exact (ih ht).cover fun inner _ => joinLines_cons hne _

theorem joinLinesOutside_cons (h : c ≠ '\\') (hopen : c ≠ '[') (cs : List Char) :
    joinLinesOutside (c :: cs) = c :: joinLinesOutside cs := by
  rw [joinLinesOutside, if_neg hopen] <;> simp [h]

/-- A group is closed where it ends, and not before. -/
theorem closeBracket?_self {depth : Int} {braces : Nat} {split : List Char × List Char}
    (h : closeBracket? depth braces cs = some split) :
    closeBracket? depth braces split.1 = some (split.1, []) := by
  fun_induction closeBracket? depth braces cs generalizing split with
  | case1 => cases h
  | case2 depth braces c cs ih =>
    obtain ⟨split, hsplit, rfl⟩ := Option.map_eq_some_iff.1 h
    simp [closeBracket?, ih hsplit, cover]
  | case3 depth cs _ ih =>
    obtain ⟨split, hsplit, rfl⟩ := Option.map_eq_some_iff.1 h
    simp [closeBracket?, ih hsplit, cover]
  | case4 depth cs hdepth =>
    cases h
    simp [closeBracket?, hdepth]
  | case5 depth cs hdepth _ _ ih =>
    obtain ⟨split, hsplit, rfl⟩ := Option.map_eq_some_iff.1 h
    simp [closeBracket?, hdepth, ih hsplit, cover]
  | case6 depth c cs hescape hopen hclose ih =>
    obtain ⟨split, hsplit, rfl⟩ := Option.map_eq_some_iff.1 h
    have hne := Expr.ne_backslash hescape rfl hsplit
    simp [closeBracket?, hne, hopen, hclose, ih hsplit, cover]
  | case7 depth braces cs hbraces _ ih =>
    obtain ⟨split, hsplit, rfl⟩ := Option.map_eq_some_iff.1 h
    simp [closeBracket?, hbraces, ih hsplit, cover]
  | case8 depth braces cs hbraces _ _ ih =>
    obtain ⟨split, hsplit, rfl⟩ := Option.map_eq_some_iff.1 h
    simp [closeBracket?, hbraces, ih hsplit, cover]
  | case9 depth braces c cs hescape hbraces hopen hclose ih =>
    obtain ⟨split, hsplit, rfl⟩ := Option.map_eq_some_iff.1 h
    have hne := Expr.ne_backslash hescape rfl hsplit
    simp [closeBracket?, hbraces, hne, hopen, hclose, ih hsplit, cover]

theorem joinLinesOutside_group {group : List Char}
    (h : bracketGroup? ('[' :: cs) = some (group, rest))
    (inner : List Char) : joinLinesOutside (group ++ inner) = group ++ joinLinesOutside inner := by
  have hself : bracketGroup? (group ++ inner) = some (group, inner) :=
    Expr.closeBracket?_append_right (closeBracket?_self h) inner
  obtain ⟨c, g, rfl⟩ := List.exists_cons_of_ne_nil (bracketGroup?_ne_nil h)
  obtain ⟨rfl, -⟩ := List.cons.inj (bracketGroup?_append h)
  rw [List.cons_append] at hself ⊢
  rw [joinLinesOutside, if_pos rfl]
  · split
    · next hgroup =>
      rw [hself] at hgroup
      cases hgroup
      rfl
    · next hgroup =>
      rw [hself] at hgroup
      cases hgroup
  · simp
  · simp

/-- The body of a quoted word is joined outside of its bracket groups. -/
theorem quotedBody_joins (h : quotedBody cs = .ok t) : Joins joinLinesOutside '"' t := by
  fun_induction quotedBody cs generalizing t with
  | case1 => cases h
  | case2 cs ih =>
    obtain ⟨t, ht, rfl⟩ := map_eq_ok_iff.1 h
    refine (ih ht).cover fun inner hinner => ?_
    have hrest := quotedBody_append ht
    rw [hinner, List.append_assoc] at hrest
    rw [List.cons_append, List.cons_append, joinLinesOutside, dropWhile_takeWhile_append hrest]
    rfl
  | case3 c cs hc ih =>
    obtain ⟨t, ht, rfl⟩ := map_eq_ok_iff.1 h
    refine (ih ht).cover fun inner _ => ?_
    rw [List.cons_append, List.cons_append, joinLinesOutside]
    · rfl
    · exact hc
  | case4 =>
    cases h
    exact ⟨[], rfl, by rw [joinLinesOutside]⟩
  | case5 => cases h
  | case6 cs group rest _ _ _ hgroup ih =>
    obtain ⟨t, ht, rfl⟩ := map_eq_ok_iff.1 h
    exact (ih ht).cover fun inner _ => joinLinesOutside_group hgroup inner
  | case7 c cs _ hescape _ hopen ih =>
    obtain ⟨t, ht, rfl⟩ := map_eq_ok_iff.1 h
    have hne : c ≠ '\\' := by
      rintro rfl
      cases cs with
      | nil =>
        rw [quotedBody] at ht
        cases ht
      | cons d ds => exact hescape d ds rfl rfl
    exact (ih ht).cover fun inner _ => joinLinesOutside_cons hne hopen _

theorem SomeJoined.append_left (pre : List Char) (h : SomeJoined cs text) :
    SomeJoined (pre ++ cs) (pre ++ text) := by
  induction pre with
  | nil => exact h
  | cons c pre ih => exact ih.kept c

theorem someJoined_joinLines (cs : List Char) : SomeJoined cs (joinLines cs) := by
  fun_induction joinLines cs with
  | case1 => exact .nil
  | case2 cs ih =>
    have h := ih.joined (cs.takeWhile isGap)
    rwa [List.takeWhile_append_dropWhile] at h
  | case3 c _ _ ih => exact (ih.kept c).kept '\\'
  | case4 c _ _ _ ih => exact ih.kept c

theorem someJoined_joinLinesOutside (cs : List Char) : SomeJoined cs (joinLinesOutside cs) := by
  fun_induction joinLinesOutside cs with
  | case1 => exact .nil
  | case2 cs ih =>
    have h := ih.joined (cs.takeWhile isGap)
    rwa [List.takeWhile_append_dropWhile] at h
  | case3 c _ _ ih => exact (ih.kept c).kept '\\'
  | case4 _ group rest _ _ hgroup ih =>
    rw [← bracketGroup?_append hgroup]
    exact ih.append_left group
  | case5 _ _ _ _ ih => exact ih.kept '['
  | case6 c _ _ _ _ ih => exact ih.kept c

theorem SomeJoined.length_le (h : SomeJoined cs text) : text.length ≤ cs.length := by
  induction h with
  | nil => exact Nat.le_refl 0
  | kept c _ ih => exact Nat.succ_le_succ ih
  | joined indent _ ih =>
    simp only [List.length_cons, List.length_append]
    omega

theorem SomeJoined.eq_or_count_lt (h : SomeJoined cs text) :
    text = cs ∨ text.count '\n' < cs.count '\n' := by
  induction h with
  | nil => exact .inl rfl
  | kept c _ ih =>
    refine ih.imp (congrArg _) fun hlt => ?_
    simpa [List.count_cons] using hlt
  | @joined indent cs text _ ih =>
    have hle : text.count '\n' ≤ cs.count '\n' :=
      ih.elim (fun heq => Nat.le_of_eq (congrArg _ heq)) Nat.le_of_lt
    right
    rw [List.count_cons_of_ne (by decide), List.count_cons_of_ne (by decide), List.count_cons_self,
      List.count_append]
    omega

theorem Covers.delimited (h : Covers kind span text) (hkind : kind = .braced ∨ kind = .quoted) :
    ∃ first inner last, first ≠ '\n' ∧ last ≠ '\n' ∧ span = first :: (inner ++ [last]) ∧
      SomeJoined inner text := by
  rcases hkind with rfl | rfl <;> obtain ⟨inner, rfl, rfl⟩ := h
  · exact ⟨'{', inner, '}', by decide, by decide, rfl, someJoined_joinLines inner⟩
  · exact ⟨'"', inner, '"', by decide, by decide, rfl, someJoined_joinLinesOutside inner⟩

theorem closeBracket?_getLast {depth : Int} {braces : Nat} {split : List Char × List Char}
    (h : closeBracket? depth braces cs = some split) : split.1.getLast? = some ']' := by
  fun_induction closeBracket? depth braces cs generalizing split with
  | case1 => cases h
  | case4 =>
    cases h
    rfl
  | case2 _ _ _ _ ih | case3 _ _ _ ih | case5 _ _ _ _ _ ih | case6 _ _ _ _ _ _ ih
  | case7 _ _ _ _ _ ih | case8 _ _ _ _ _ _ ih | case9 _ _ _ _ _ _ _ _ ih =>
    obtain ⟨split, hsplit, rfl⟩ := Option.map_eq_some_iff.1 h
    simp [cover, List.getLast?_cons, ih hsplit]

/-- A bare word ends on the line of its last character. -/
theorem bareBody_getLast {parts : Nat} (h : bareBody cs = .ok (parts, span, rest)) :
    span.getLast? ≠ some '\n' := by
  fun_induction bareBody cs generalizing parts span rest with
  | case1 | case2 | case4 =>
    cases h
    simp
  | case3 c cs hc ih =>
    obtain ⟨⟨parts, span, rest⟩, hbody, heq⟩ := map_eq_ok_iff.1 h
    cases heq
    have := ih hbody
    cases hlast : span.getLast? <;> simp_all [List.getLast?_cons]
  | case5 => cases h
  | case6 cs group rest _ _ _ hgroup ih =>
    obtain ⟨⟨parts, span, rest⟩, hbody, heq⟩ := map_eq_ok_iff.1 h
    cases heq
    have := ih hbody
    have hclose : group.getLast? = some ']' := closeBracket?_getLast hgroup
    cases hlast : span.getLast? <;> simp_all [List.getLast?_append]
  | case7 c cs _ _ hsep _ ih =>
    obtain ⟨⟨parts, span, rest⟩, hbody, heq⟩ := map_eq_ok_iff.1 h
    cases heq
    have := ih hbody
    have hline : c ≠ '\n' := by
      rintro rfl
      simp at hsep
    cases hlast : span.getLast? <;> simp_all [List.getLast?_cons]

/-- The text of a word is what its kind makes of its span, which ends on the line of its last
character. -/
theorem readWord_covers (h : readWord cs = .ok (kind, t)) :
    Covers kind t.span t.text ∧ t.span.getLast? ≠ some '\n' := by
  unfold readWord at h
  split at h
  · split at h
    · cases h
    · next t ht =>
      cases h
      obtain ⟨inner, hspan, htext⟩ := bracedBody_joins ht
      exact ⟨⟨inner, by simp [Taken.cover, hspan], htext⟩, by simp [Taken.cover, hspan,
        List.getLast?_cons]⟩
  · obtain ⟨t, ht, heq⟩ := map_eq_ok_iff.1 h
    cases heq
    obtain ⟨inner, hspan, htext⟩ := quotedBody_joins ht
    exact ⟨⟨inner, by simp [Taken.cover, hspan], htext⟩, by simp [Taken.cover, hspan,
      List.getLast?_cons]⟩
  · obtain ⟨⟨parts, span, rest⟩, hbare, heq⟩ := map_eq_ok_iff.1 h
    dsimp only at heq
    split at heq
    · next hopen =>
      cases heq
      refine ⟨⟨?_, rfl⟩, bareBody_getLast hbare⟩
      have hhead : cs.head? = some '[' := by simp_all
      obtain ⟨body, rfl⟩ : ∃ body, cs = '[' :: body := by
        cases cs with
        | nil => cases hhead
        | cons c body => exact ⟨body, by rw [Option.some.inj hhead]⟩
      -- the span is not empty, so it begins like the source
      have hne := bareBody_ne_nil hbare (by simp [atSeparator, isGap, continuation?])
      obtain ⟨c, span, rfl⟩ := List.exists_cons_of_ne_nil hne
      rw [(List.cons.inj (bareBody_append hbare)).1]
      rfl
    · cases heq
      exact ⟨rfl, bareBody_getLast hbare⟩

end RadarTimeline.Script
