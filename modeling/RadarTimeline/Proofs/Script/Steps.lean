import RadarTimeline.Script.Reader

namespace RadarTimeline.Script

variable {filename : String} {cur : Cursor} {words : List Word} {c : Char} {cs : List Char}
  {kind : WordKind} {t : Taken}

theorem ok_of_toOption {ε α : Type} {x : Except ε α} {a : α} (h : x.toOption = some a) :
    x = .ok a := by
  cases x with
  | error e => cases h
  | ok b => exact congrArg Except.ok (Option.some.inj h)

theorem exists_of_joined (h : (continuation? cs).isSome = true) :
    ∃ more, cs = '\\' :: '\n' :: more := by
  unfold continuation? at h
  split at h
  · exact ⟨_, rfl⟩
  · cases h

/-- Where a separator stands, no word is read. -/
theorem bareBody_separator (h : atSeparator cs = true) : bareBody cs = .ok (0, [], cs) := by
  cases cs with
  | nil => rw [bareBody]
  | cons c cs =>
    by_cases hend : isGap c || c = '\n' || c = ';'
    · have hescape : c ≠ '\\' := by
        rintro rfl
        exact absurd hend (by decide)
      rw [bareBody, if_pos hend] <;> simp [hescape]
    · rw [atSeparator, Bool.or_eq_true] at h
      obtain ⟨more, heq⟩ := exists_of_joined (h.resolve_left hend)
      rw [heq, bareBody]

theorem not_atSeparator_cons (h : atSeparator (c :: cs) = false) :
    isGap c = false ∧ c ≠ '\n' ∧ c ≠ ';' ∧ continuation? (c :: cs) = none := by
  simp only [atSeparator, Bool.or_eq_false_iff, decide_eq_false_iff_not, Option.isSome_eq_false_iff,
    Option.isNone_iff_eq_none] at h
  exact ⟨h.1.1.1, h.1.1.2, h.1.2, h.2⟩

theorem not_atSeparator (hgap : ¬isGap c = true) (hend : ¬(c = '\n' || c = ';') = true)
    (hjoin : continuation? (c :: cs) = none) : atSeparator (c :: cs) = false := by
  simp_all [atSeparator]

theorem scan_nil : scan filename cur words [] = .ok (finish filename words) := by
  rw [scan]

theorem scan_gap (hc : isGap c = true) (cs : List Char) :
    scan filename cur words (c :: cs) = scan filename (cur.step c) words cs := by
  rw [scan, if_pos hc]

theorem scan_end (hc : c = '\n' ∨ c = ';') (cs : List Char) :
    scan filename cur words (c :: cs) =
      (scan filename (cur.step c) [] cs).map (finish filename words ++ ·) := by
  rw [scan, if_neg, if_pos]
  · simpa using hc
  · rcases hc with rfl | rfl <;> decide

theorem scan_comment (cs : List Char) :
    scan filename cur [] ('#' :: cs) =
      scan filename (cur.advance (comment ('#' :: cs)).1) [] (comment ('#' :: cs)).2 := by
  rw [scan, if_neg (by decide), if_neg (by decide), if_pos rfl, if_pos List.isEmpty_nil]

theorem scan_stray (hwords : words ≠ []) (cs : List Char) :
    scan filename cur words ('#' :: cs) = .error ⟨.strayComment, cur.location filename⟩ := by
  rw [scan, if_neg (by decide), if_neg (by decide), if_pos rfl, if_neg (by simpa using hwords)]

section Word

variable (hsep : atSeparator (c :: cs) = false) (hcomment : c ≠ '#')

include hsep hcomment

/-- A word is read, and a separator has to follow it. -/
theorem scan_atWord :
    (∀ fault, readWord (c :: cs) = .error fault →
      scan filename cur words (c :: cs) = .error ⟨fault, cur.location filename⟩) ∧
    ∀ kind t, readWord (c :: cs) = .ok (kind, t) →
      scan filename cur words (c :: cs) =
        if atSeparator t.rest then
          scan filename (cur.advance t.span)
            (⟨kind, String.ofList t.text, cur.line, cur.column, (cur.advance t.span).column - 1⟩ ::
              words)
            t.rest
        else
          .error ⟨.extra (if kind = .quoted then .quote else .brace),
            (cur.advance t.span).location filename⟩ := by
  obtain ⟨hgap, hline, hend, hjoin⟩ := not_atSeparator_cons hsep
  rw [scan, if_neg (by simp [hgap]), if_neg (by simp [hline, hend]), if_neg hcomment]
  split
  · next heq => rw [hjoin] at heq; cases heq
  · constructor
    · intro fault hread
      split
      · next heq =>
        rw [hread] at heq
        cases heq
        rfl
      · next heq => rw [hread] at heq; cases heq
    · intro kind t hread
      split
      · next heq => rw [hread] at heq; cases heq
      · next heq =>
        rw [hread] at heq
        cases heq
        rfl

theorem scan_read (hread : readWord (c :: cs) = .ok (kind, t)) (hrest : atSeparator t.rest = true) :
    scan filename cur words (c :: cs) =
      scan filename (cur.advance t.span)
        (⟨kind, String.ofList t.text, cur.line, cur.column, (cur.advance t.span).column - 1⟩ ::
          words)
        t.rest :=
  ((scan_atWord hsep hcomment).2 kind t hread).trans (if_pos hrest)

theorem scan_unread {fault : ReadFault} (hread : readWord (c :: cs) = .error fault) :
    scan filename cur words (c :: cs) = .error ⟨fault, cur.location filename⟩ :=
  (scan_atWord hsep hcomment).1 fault hread

theorem scan_extra (hread : readWord (c :: cs) = .ok (kind, t))
    (hrest : atSeparator t.rest = false) :
    scan filename cur words (c :: cs) =
      .error ⟨.extra (if kind = .quoted then .quote else .brace),
        (cur.advance t.span).location filename⟩ :=
  ((scan_atWord hsep hcomment).2 kind t hread).trans (if_neg (by simp [hrest]))

variable (filename cur words) in
theorem scan_refused
    (h : ∀ kind t, readWord (c :: cs) = .ok (kind, t) → atSeparator t.rest = false) :
    ∃ error, scan filename cur words (c :: cs) = .error error := by
  cases hread : readWord (c :: cs) with
  | error fault => exact ⟨_, scan_unread hsep hcomment hread⟩
  | ok word => exact ⟨_, scan_extra hsep hcomment hread (h _ _ hread)⟩

end Word

end RadarTimeline.Script
