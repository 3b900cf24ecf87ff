import RadarTimeline.Script.ListText
import RadarTimeline.Proofs.Script.Steps
import Mathlib.Data.List.Forall2

namespace RadarTimeline.Script

/-- Every brace of a text has its partner when `depth` of them are open before it. A backslash takes
the character after it out of the count; there is such a character, and it is no line break. -/
def balanced (depth : Nat) : List Char → Bool
  | [] => depth = 0
  | ['\\'] => false
  | '\\' :: c :: cs => c ≠ '\n' && balanced depth cs
  | '{' :: cs => balanced (depth + 1) cs
  | '}' :: cs =>
    match depth with
    | 0 => false
    | inner + 1 => balanced inner cs
  | _ :: cs => balanced depth cs

theorem bracedBody_escape {c : Char} (h : c ≠ '\n') (depth : Nat) (cs : List Char) :
    bracedBody depth ('\\' :: c :: cs) = (bracedBody depth cs).map
      (Taken.cover ['\\', c] ['\\', c]) := by
  rw [bracedBody]
  exact h

theorem bracedBody_close (depth : Nat) (cs : List Char) :
    bracedBody (depth + 1) ('}' :: cs) = (bracedBody depth cs).map (Taken.cover ['}'] ['}']) := by
  rw [bracedBody, if_pos rfl] <;> simp

theorem bracedBody_cons {c : Char} (hescape : c ≠ '\\') (hclose : c ≠ '}') (depth : Nat)
    (cs : List Char) :
    bracedBody depth (c :: cs) =
      (bracedBody (if c = '{' then depth + 1 else depth) cs).map (Taken.cover [c] [c]) := by
  cases depth <;> rw [bracedBody, if_neg hclose] <;> simp [hescape]

theorem exists_of_cover {x : Option Taken} {pre span cs rest : List Char}
    (h : x.map (Taken.cover pre pre) = some ⟨span, pre ++ cs, rest⟩) :
    ∃ inner, x = some ⟨inner, cs, rest⟩ := by
  obtain ⟨⟨inner, text, more⟩, rfl, ht⟩ := Option.map_eq_some_iff.1 h
  obtain ⟨-, htext, rfl⟩ := by simpa [Taken.cover] using ht
  exact ⟨inner, by rw [htext]⟩

theorem cover_ne {x : Option Taken} {pre span cs rest : List Char} {c d : Char} {text : List Char}
    (hne : c ≠ d) : x.map (Taken.cover pre (c :: text)) ≠ some ⟨span, d :: cs, rest⟩ := by
  intro h
  obtain ⟨t, -, ht⟩ := Option.map_eq_some_iff.1 h
  exact hne (List.cons.inj (congrArg Taken.text ht)).1

/-- Braces hold a balanced text as it is. -/
theorem bracedBody_balanced {depth : Nat} {cs : List Char} (h : balanced depth cs = true)
    (rest : List Char) : ∃ span, bracedBody depth (cs ++ '}' :: rest) = some ⟨span, cs, rest⟩ := by
  fun_induction balanced depth cs with
  | case1 depth =>
    obtain rfl : depth = 0 := by simpa using h
    exact ⟨['}'], by simp [bracedBody]⟩
  | case2 => cases h
  | case3 depth c cs ih =>
    obtain ⟨hc, hcs⟩ : c ≠ '\n' ∧ balanced depth cs = true := by simpa using h
    obtain ⟨span, hspan⟩ := ih hcs
    exact ⟨'\\' :: c :: span, by simp [bracedBody_escape hc, hspan, Taken.cover]⟩
  | case4 depth cs ih =>
    obtain ⟨span, hspan⟩ := ih h
    exact ⟨'{' :: span, by simp [bracedBody_cons, hspan, Taken.cover]⟩
  | case5 => cases h
  | case6 cs inner ih =>
    obtain ⟨span, hspan⟩ := ih h
    exact ⟨'}' :: span, by simp [bracedBody_close, hspan, Taken.cover]⟩
  | case7 depth c cs hlast hescape hopen hclose ih =>
    obtain ⟨span, hspan⟩ := ih h
    have hne : c ≠ '\\' := by
      rintro rfl
      cases cs with
      | nil => exact hlast rfl rfl
      | cons c cs => exact hescape c cs rfl rfl
    refine ⟨c :: span, ?_⟩
    rw [List.cons_append, bracedBody_cons hne hclose, if_neg hopen, hspan]
    rfl

/-- Braces hold no other text as it is: they close inside it, reach past it, or join its lines. -/
theorem balanced_of_bracedBody {depth : Nat} {cs rest span rest' : List Char}
    (h : bracedBody depth (cs ++ '}' :: rest) = some ⟨span, cs, rest'⟩) :
    balanced depth cs = true := by
  fun_induction balanced depth cs generalizing span with
  | case1 depth =>
    cases depth with
    | zero => rfl
    | succ inner =>
      rw [List.nil_append, bracedBody_close] at h
      obtain ⟨t, -, ht⟩ := Option.map_eq_some_iff.1 h
      cases congrArg Taken.text ht
  | case2 depth =>
    rw [List.cons_append, List.nil_append, bracedBody_escape (by decide)] at h
    obtain ⟨t, -, ht⟩ := Option.map_eq_some_iff.1 h
    cases congrArg Taken.text ht
  | case3 depth c cs ih =>
    rw [List.cons_append, List.cons_append] at h
    by_cases hc : c = '\n'
    · rw [hc, bracedBody] at h
      exact absurd h (cover_ne (by decide))
    · rw [bracedBody_escape hc] at h
      obtain ⟨inner, hinner⟩ := exists_of_cover h
      simp [hc, ih hinner]
  | case4 depth cs ih =>
    rw [List.cons_append, bracedBody_cons (by decide) (by decide)] at h
    obtain ⟨inner, hinner⟩ := exists_of_cover h
    exact ih hinner
  | case5 => simp [bracedBody] at h
  | case6 cs inner ih =>
    rw [List.cons_append, bracedBody_close] at h
    obtain ⟨inner, hinner⟩ := exists_of_cover h
    exact ih hinner
  | case7 depth c cs hlast hescape hopen hclose ih =>
    have hne : c ≠ '\\' := by
      rintro rfl
      cases cs with
      | nil => exact hlast rfl rfl
      | cons c cs => exact hescape c cs rfl rfl
    rw [List.cons_append, bracedBody_cons hne hclose, if_neg hopen] at h
    obtain ⟨inner, hinner⟩ := exists_of_cover h
    exact ih hinner

/-- Between two words stands a gap, or the text ends. -/
def Apart (rest : List Char) : Prop := ∀ c ∈ rest.head?, isGap c = true

theorem Apart.atSeparator {rest : List Char} (h : Apart rest) : atSeparator rest = true := by
  cases rest with
  | nil => rfl
  | cons c cs => simp [Script.atSeparator, h c rfl]

theorem isBlank_of_isGap {c : Char} (h : isGap c = true) : Text.isBlank c = true := by
  have hc : c = ' ' ∨ c = '\t' ∨ c = '\r' := by simpa [isGap, or_assoc] using h
  rcases hc with rfl | rfl | rfl <;> decide

/-- A text that an element shows as it is. -/
def Plain (cs : List Char) : Prop := ∀ c ∈ cs, needsBraces c = false

theorem plain_cons {c : Char} {cs : List Char} :
    Plain (c :: cs) ↔ needsBraces c = false ∧ Plain cs :=
  List.forall_mem_cons

/-- The characters that divide a script into commands and words are not plain. -/
theorem ne_of_plain {c : Char} (h : needsBraces c = false) :
    isGap c = false ∧ c ≠ '\n' ∧ c ≠ ';' ∧ c ≠ '\\' ∧ c ≠ '[' ∧ c ≠ '{' ∧ c ≠ '}' ∧ c ≠ '"' ∧
    c ≠ '$' := by
  obtain ⟨hblank, hmem⟩ : Text.isBlank c = false ∧ _ := Bool.or_eq_false_iff.1 h
  have hgap : isGap c = false := by
    rw [Bool.eq_false_iff]
    intro hc
    simp [isBlank_of_isGap hc] at hblank
  have hline : c ≠ '\n' := by
    rintro rfl
    exact absurd hblank (by decide)
  refine ⟨hgap, hline, ?_⟩
  simp at hmem
  simp_all

theorem balanced_plain {cs : List Char} (h : Plain cs) : balanced 0 cs = true := by
  induction cs with
  | nil => rfl
  | cons c cs ih =>
    obtain ⟨hc, hcs⟩ := plain_cons.1 h
    obtain ⟨-, -, -, hescape, -, hopen, hclose, -⟩ := ne_of_plain hc
    rw [balanced]
    · exact ih hcs
    all_goals simp_all

theorem bareBody_plain {cs rest : List Char} (h : Plain cs) (hrest : Apart rest) :
    bareBody (cs ++ rest) = .ok (cs.length, cs, rest) := by
  induction cs with
  | nil =>
    cases rest with
    | nil => rw [List.nil_append, bareBody]; rfl
    | cons c rest =>
      have hgap := hrest c rfl
      rw [List.nil_append, bareBody, if_pos (by simp [hgap])]
      · rfl
      all_goals
        intros
        subst_vars
        exact absurd hgap (by decide)
  | cons c cs ih =>
    obtain ⟨hc, hcs⟩ := plain_cons.1 h
    obtain ⟨hgap, hline, hend, hescape, hopen, -⟩ := ne_of_plain hc
    rw [List.cons_append, bareBody, if_neg (by simp [hgap, hline, hend]), if_neg hopen, ih hcs]
    · simp [Except.map, hescape]
    all_goals simp [hescape]

/-- A character at which a word begins, whatever was read before it. -/
def Begins (c : Char) : Prop := isGap c = false ∧ c ≠ '\n' ∧ c ≠ ';' ∧ c ≠ '#' ∧ c ≠ '\\'

theorem Begins.not_atSeparator {c : Char} (h : Begins c) (cs : List Char) :
    atSeparator (c :: cs) = false := by
  obtain ⟨hgap, hline, hend, -, hescape⟩ := h
  have hjoin : continuation? (c :: cs) = none := by
    unfold continuation?
    split
    · next heq => exact absurd (List.cons.inj heq).1 hescape
    · rfl
  simp [atSeparator, hgap, hline, hend, hjoin]

variable {filename : String} {cur : Cursor} {words : List Word} {c : Char} {cs : List Char}

variable (filename cur words) in
theorem scan_word {kind : WordKind} {t : Taken} (hc : Begins c)
    (hread : readWord (c :: cs) = .ok (kind, t)) (hrest : atSeparator t.rest = true) :
    ∃ cur' w, w.kind = kind ∧ w.text = String.ofList t.text ∧
      scan filename cur words (c :: cs) = scan filename cur' (w :: words) t.rest :=
  ⟨cur.advance t.span, ⟨kind, String.ofList t.text, cur.line, cur.column,
    (cur.advance t.span).column - 1⟩,
    rfl, rfl, scan_read (hc.not_atSeparator cs) hc.2.2.2.1 hread hrest⟩

theorem exists_word_of_scan {commands : List Command} (hc : Begins c)
    (h : scan filename cur words (c :: cs) = .ok commands) :
    ∃ kind t, readWord (c :: cs) = .ok (kind, t) ∧ atSeparator t.rest = true := by
  by_contra hnone
  obtain ⟨error, herror⟩ := scan_refused filename cur words (hc.not_atSeparator cs) hc.2.2.2.1
    fun kind t hread =>
      Bool.eq_false_iff.2 fun hrest => hnone ⟨kind, t, hread, hrest⟩
  rw [h] at herror
  cases herror

/-- The words read so far are the first of the first command. -/
theorem prefix_of_scan {commands : List Command} (h : scan filename cur words cs = .ok commands)
    (hwords : words ≠ []) :
    ∃ first rest, commands = first :: rest ∧ words.reverse <+: first.words := by
  have hfinish : ∀ words : List Word, words ≠ [] →
      ∃ first, finish filename words = [first] ∧ first.words = words.reverse := by
    intro words hwords
    obtain ⟨head, args, hreverse⟩ := List.exists_cons_of_ne_nil (List.reverse_ne_nil_iff.2 hwords)
    exact ⟨⟨filename, head, args⟩, by rw [finish, hreverse], by rw [hreverse]; rfl⟩
  fun_induction scan filename cur words cs generalizing commands with
  | case1 cur words =>
    obtain ⟨first, hfirst, hwords⟩ := hfinish words hwords
    cases h
    exact ⟨first, [], hfirst, hwords ▸ List.prefix_refl _⟩
  | case2 cur words c cs hgap ih => exact ih h hwords
  | case3 cur words c cs hgap hline ih =>
    obtain ⟨more, -, rfl⟩ := map_eq_ok_iff.1 h
    obtain ⟨first, hfirst, heq⟩ := hfinish words hwords
    exact ⟨first, more, by rw [hfirst]; rfl, heq ▸ List.prefix_refl _⟩
  | case4 cur words cs hnone => exact absurd (List.isEmpty_iff.1 hnone) hwords
  | case5 => cases h
  | case6 cur words c cs _ _ _ span rest _ ih => exact ih h hwords
  | case7 => cases h
  | case8 =>
    rename_i ih
    obtain ⟨first, rest, hcommands, hprefix⟩ := ih h (List.cons_ne_nil _ _)
    rw [List.reverse_cons] at hprefix
    exact ⟨first, rest, hcommands, (List.prefix_append _ _).trans hprefix⟩
  | case9 => cases h

/-- A text that is plain is shown as it is; all others stand between braces. -/
theorem elementText_cases (x : String) :
    (∃ c cs, x.toList = c :: cs ∧ c ≠ '#' ∧ Plain (c :: cs) ∧ elementText x = x) ∨
      (elementText x).toList = '{' :: (x.toList ++ ['}']) := by
  unfold elementText
  split
  · next h =>
    subst h
    exact .inr (by decide)
  · next hne =>
    split
    · exact .inr (by simp)
    · next h =>
      simp only [Bool.or_eq_true, decide_eq_true_eq, not_or, Bool.not_eq_true,
        List.any_eq_false] at h
      obtain ⟨hplain, hcomment⟩ := h
      cases hx : x.toList with
      | nil => exact absurd (String.toList_eq_nil_iff.1 hx) hne
      | cons c cs =>
        rw [hx] at hplain hcomment
        exact .inl
          ⟨c, cs, rfl, by simpa using hcomment, fun c hc => by simpa using hplain c hc, rfl⟩

/-- A word stands for a text: it is braced and holds it, or bare and shows it. -/
def Word.Spells (w : Word) (x : String) : Prop :=
  w.text = x ∧ (w.kind = .braced ∨ w.kind = .bare ∧ Plain x.toList)

variable (filename cur words) in
theorem scan_plain {rest : List Char} (hcomment : c ≠ '#') (h : Plain (c :: cs))
    (hrest : Apart rest) :
    ∃ cur' w, w.Spells (String.ofList (c :: cs)) ∧
      scan filename cur words (c :: cs ++ rest) = scan filename cur' (w :: words) rest := by
  obtain ⟨hgap, hline, hend, hescape, hbracket, hopen, -, hquote, -⟩ :=
    ne_of_plain (plain_cons.1 h).1
  have hread : readWord (c :: cs ++ rest) = .ok (.bare, ⟨c :: cs, c :: cs, rest⟩) := by
    unfold readWord
    split
    · next heq => exact absurd (List.cons.inj heq).1 hopen
    · next heq => exact absurd (List.cons.inj heq).1 hquote
    · rw [bareBody_plain h hrest]
      simp [Except.map, hbracket]
  obtain ⟨cur', w, hkind, htext, hscan⟩ :=
    scan_word filename cur words ⟨hgap, hline, hend, hcomment, hescape⟩ hread hrest.atSeparator
  refine ⟨cur', w, ⟨htext, .inr ⟨hkind, ?_⟩⟩, hscan⟩
  rwa [String.toList_ofList]

theorem begins_brace : Begins '{' := by
  refine ⟨by decide, by decide, by decide, by decide, by decide⟩

def gapped (xs : List String) : List Char := xs.flatMap fun x => ' ' :: (elementText x).toList

theorem gapped_cons (x : String) (xs : List String) :
    gapped (x :: xs) = ' ' :: ((elementText x).toList ++ gapped xs) := rfl

theorem toList_listText_cons (x : String) (xs : List String) :
    (listText (x :: xs)).toList = (elementText x).toList ++ gapped xs := by
  induction xs generalizing x with
  | nil => simp [listText, gapped]
  | cons y ys ih =>
    have hrest := ih y
    rw [listText, String.toList_intercalate] at hrest ⊢
    rw [gapped_cons, ← hrest]
    simp [List.intercalate_cons_cons]

theorem apart_gapped (xs : List String) : Apart (gapped xs) := by
  cases xs with
  | nil => exact nofun
  | cons x xs =>
    intro c hc
    cases hc
    decide

variable (filename cur words) in
/-- Balanced elements are read as words that stand for them. -/
theorem scan_gapped {xs : List String} (h : ∀ x ∈ xs, balanced 0 x.toList = true) :
    ∃ ws, List.Forall₂ Word.Spells ws xs ∧
      scan filename cur words (gapped xs) = .ok (finish filename (ws.reverse ++ words)) := by
  induction xs generalizing cur words with
  | nil => exact ⟨[], .nil, by rw [gapped, List.flatMap_nil, scan]; rfl⟩
  | cons x xs ih =>
    obtain ⟨hx, hxs⟩ := List.forall_mem_cons.1 h
    suffices hword : ∃ cur' w, w.Spells x ∧
        scan filename cur words (gapped (x :: xs)) = scan filename cur' (w :: words) (gapped xs) by
      obtain ⟨cur', w, hspells, hscan⟩ := hword
      obtain ⟨ws, hws, hrest⟩ := ih cur' (w :: words) hxs
      refine ⟨w :: ws, .cons hspells hws, ?_⟩
      rw [hscan, hrest, List.reverse_cons, List.append_assoc, List.singleton_append]
    rw [gapped_cons, scan_gap (by decide)]
    rcases elementText_cases x with ⟨c, cs, hchars, hcomment, hplain, hbare⟩ | hbraced
    · obtain ⟨cur', w, hspells, hscan⟩ := scan_plain filename (cur.step ' ') words hcomment hplain
        (apart_gapped xs)
      rw [hbare, hchars]
      rw [← hchars, String.ofList_toList] at hspells
      exact ⟨cur', w, hspells, hscan⟩
    · obtain ⟨span, hbody⟩ := bracedBody_balanced hx (gapped xs)
      have hread : readWord ('{' :: (x.toList ++ '}' :: gapped xs)) =
          .ok (.braced, ⟨'{' :: span, x.toList, gapped xs⟩) := by
        rw [readWord, hbody]
        rfl
      obtain ⟨cur', w, hkind, htext, hscan⟩ :=
        scan_word filename (cur.step ' ') words begins_brace hread (apart_gapped xs).atSeparator
      rw [String.ofList_toList] at htext
      refine ⟨cur', w, ⟨htext, .inl hkind⟩, ?_⟩
      rw [hbraced, ← hscan]
      simp

theorem readWord_brace {kind : WordKind} {t : Taken} (h : readWord ('{' :: cs) = .ok (kind, t)) :
    ∃ span, kind = .braced ∧ bracedBody 0 cs = some ⟨span, t.text, t.rest⟩ := by
  rw [readWord] at h
  cases hbody : bracedBody 0 cs with
  | none =>
    rw [hbody] at h
    cases h
  | some body =>
    rw [hbody] at h
    cases h
    exact ⟨body.span, rfl, rfl⟩

/-- If each braced word holds what it should, every element is balanced. `before` are the texts of
the words read so far. -/
theorem balanced_of_scan {xs before : List String} {command : Command}
    (h : scan filename cur words (gapped xs) = .ok [command])
    (hbefore : before.length = words.length)
    (hheld : ∀ (i : Nat) w x, command.words[i]? = some w → (before ++ xs)[i]? = some x →
      w.kind = .braced → w.text = x) :
    ∀ x ∈ xs, balanced 0 x.toList = true := by
  induction xs generalizing cur words before with
  | nil => exact nofun
  | cons x xs ih =>
    -- one more word is read, and the texts from it on are the rest
    have hnext : ∀ {cur' : Cursor} {w : Word},
        scan filename cur' (w :: words) (gapped xs) = .ok [command] →
        ∀ y ∈ xs, balanced 0 y.toList = true := by
      intro cur' w hscan
      have hheld' := hheld
      rw [← List.singleton_append, ← List.append_assoc] at hheld'
      exact ih hscan (by simp [hbefore]) hheld'
    rw [gapped_cons, scan_gap (by decide)] at h
    rw [List.forall_mem_cons]
    rcases elementText_cases x with ⟨c, cs, hchars, hcomment, hplain, hbare⟩ | hbraced
    · obtain ⟨cur', w, -, hscan⟩ := scan_plain filename (cur.step ' ') words hcomment hplain
        (apart_gapped xs)
      rw [hbare, hchars, hscan] at h
      exact ⟨hchars ▸ balanced_plain hplain, hnext h⟩
    · rw [hbraced, List.cons_append, List.append_assoc, List.singleton_append] at h
      obtain ⟨kind, t, hread, hsep⟩ := exists_word_of_scan begins_brace h
      obtain ⟨cur', w, hkind, htext, hscan⟩ :=
        scan_word filename (cur.step ' ') words begins_brace hread hsep
      obtain ⟨span, hbraced, hbody⟩ := readWord_brace hread
      rw [hscan] at h
      obtain ⟨first, rest, hfirst, hprefix⟩ := prefix_of_scan h (List.cons_ne_nil _ _)
      obtain ⟨rfl, -⟩ := List.cons.inj hfirst
      have hw : command.words[words.length]? = some w := by
        rw [List.prefix_iff_getElem?.1 hprefix words.length (by simp)]
        simp
      have hx : t.text = x.toList := by
        have := hheld words.length w x hw (by simp [← hbefore]) (hkind.trans hbraced)
        rw [← this, htext, String.toList_ofList]
      have hbalanced : balanced 0 x.toList = true := balanced_of_bracedBody (hx ▸ hbody)
      -- so the brace closed where it should, and the rest of the text is what follows
      obtain ⟨span', hbody'⟩ := bracedBody_balanced hbalanced (gapped xs)
      rw [hbody'] at hbody
      have hrest : gapped xs = t.rest := congrArg Taken.rest (Option.some.inj hbody)
      exact ⟨hbalanced, hnext (hrest ▸ h)⟩

end RadarTimeline.Script
