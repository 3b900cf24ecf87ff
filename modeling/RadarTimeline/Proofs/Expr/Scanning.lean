import RadarTimeline.Proofs.Expr.Writing

namespace RadarTimeline.Expr

open Script

variable {cs rest : List Char} {p : Char → Bool} {c : Char}

theorem takeWhile_exact (h : ∀ c ∈ cs, p c = true) (hstop : ∀ c ∈ rest.head?, p c = false) :
    (cs ++ rest).takeWhile p = cs := by
  rw [List.takeWhile_append_of_pos h]
  cases rest with
  | nil => simp
  | cons c rest => simp [hstop c rfl]

theorem dropWhile_exact (h : ∀ c ∈ cs, p c = true) (hstop : ∀ c ∈ rest.head?, p c = false) :
    (cs ++ rest).dropWhile p = rest := by
  rw [List.dropWhile_append_of_pos h]
  cases rest with
  | nil => rfl
  | cons c rest => simp [hstop c rfl]

theorem Gap.stops (hgap : Gap rest) (hspace : p ' ' = false) : ∀ c ∈ rest.head?, p c = false :=
  fun c hc => hgap c hc ▸ hspace

theorem not_blank_of_range (hlow : 32 < c.toNat) (hhigh : c.toNat < 160) :
    Text.isBlank c = false := by
  simp only [Text.isBlank, Bool.or_eq_false_iff, Bool.and_eq_false_iff, beq_eq_false_iff_ne,
    decide_eq_false_iff_not]
  omega

theorem isDigit_eq (c : Char) : Number.isDigit c = c.isDigit := by
  rw [Bool.eq_iff_iff]
  simp [Number.isDigit, Number.digitValue?, Char.isDigit, UInt32.le_iff_toNat_le]
  grind

theorem isHexDigit_of_digit (h : Number.isDigit c = true) : Number.isHexDigit c = true := by
  grind [Number.isDigit, Number.isHexDigit, Number.digitValue?]

theorem not_blank_of_hexDigit (h : Number.isHexDigit c = true) : Text.isBlank c = false := by
  have hrange : 48 ≤ c.toNat ∧ c.toNat ≤ 102 := by grind [Number.isHexDigit, Number.digitValue?]
  exact not_blank_of_range (by omega) (by omega)

theorem ne_backslash {α : Type} {read : List Char → Option α} {result : α}
    (hescape : ∀ d ds, c = '\\' → cs = d :: ds → False) (hnil : read [] = none)
    (hread : read cs = some result) : c ≠ '\\' := by
  rintro rfl
  cases cs with
  | nil =>
    rw [hnil] at hread
    cases hread
  | cons d ds => exact hescape d ds rfl rfl

theorem closeBrace?_append_right {depth : Int} {split : List Char × List Char}
    (h : closeBrace? depth cs = some split) (more : List Char) :
    closeBrace? depth (cs ++ more) = some (split.1, split.2 ++ more) := by
  fun_induction closeBrace? depth cs generalizing split with
  | case1 => cases h
  | case2 depth c cs ih =>
    obtain ⟨split, hsplit, rfl⟩ := Option.map_eq_some_iff.1 h
    simp [closeBrace?, ih hsplit, cover]
  | case3 depth cs _ ih =>
    obtain ⟨split, hsplit, rfl⟩ := Option.map_eq_some_iff.1 h
    simp [closeBrace?, ih hsplit, cover]
  | case4 depth cs hdepth =>
    cases h
    simp [closeBrace?, hdepth]
  | case5 depth cs hdepth _ _ ih =>
    obtain ⟨split, hsplit, rfl⟩ := Option.map_eq_some_iff.1 h
    simp [closeBrace?, hdepth, ih hsplit, cover]
  | case6 depth c cs hescape hopen hclose ih =>
    obtain ⟨split, hsplit, rfl⟩ := Option.map_eq_some_iff.1 h
    have hne := ne_backslash hescape rfl hsplit
    simp [closeBrace?, hne, hopen, hclose, ih hsplit, cover]

theorem closeBracket?_append_right {depth : Int} {braces : Nat} {split : List Char × List Char}
    (h : closeBracket? depth braces cs = some split) (more : List Char) :
    closeBracket? depth braces (cs ++ more) = some (split.1, split.2 ++ more) := by
  fun_induction closeBracket? depth braces cs generalizing split with
  | case1 => cases h
  | case2 depth braces c cs ih =>
    obtain ⟨split, hsplit, rfl⟩ := Option.map_eq_some_iff.1 h
    simp [closeBracket?, ih hsplit, cover]
  | case3 depth cs _ ih =>
    obtain ⟨split, hsplit, rfl⟩ := Option.map_eq_some_iff.1 h
    simp [closeBracket?, ih hsplit, cover]
  | case4 depth cs hdepth =>
    cases h
    simp [closeBracket?, hdepth]
  | case5 depth cs hdepth _ _ ih =>
    obtain ⟨split, hsplit, rfl⟩ := Option.map_eq_some_iff.1 h
    simp [closeBracket?, hdepth, ih hsplit, cover]
  | case6 depth c cs hescape hopen hclose ih =>
    obtain ⟨split, hsplit, rfl⟩ := Option.map_eq_some_iff.1 h
    have hne := ne_backslash hescape rfl hsplit
    simp [closeBracket?, hne, hopen, hclose, ih hsplit, cover]
  | case7 depth braces cs hbraces _ ih =>
    obtain ⟨split, hsplit, rfl⟩ := Option.map_eq_some_iff.1 h
    simp [closeBracket?, hbraces, ih hsplit, cover]
  | case8 depth braces cs hbraces _ _ ih =>
    obtain ⟨split, hsplit, rfl⟩ := Option.map_eq_some_iff.1 h
    simp [closeBracket?, hbraces, ih hsplit, cover]
  | case9 depth braces c cs hescape hbraces hopen hclose ih =>
    obtain ⟨split, hsplit, rfl⟩ := Option.map_eq_some_iff.1 h
    have hne := ne_backslash hescape rfl hsplit
    simp [closeBracket?, hbraces, hne, hopen, hclose, ih hsplit, cover]

theorem splitQuoted?_quotable (h : Quotable cs) (rest : List Char) :
    splitQuoted? (cs ++ '"' :: rest) = some (cs, rest) := by
  induction h with
  | nil => rfl
  | escaped _ ih =>
    rw [List.cons_append, List.cons_append, splitQuoted?, ih]
    rfl
  | plain hc hq _ ih =>
    rw [List.cons_append, splitQuoted?, if_neg hq, ih]
    · rfl
    · exact fun _ _ h _ => hc h

theorem splitReference?_exact (h : ∀ c ∈ cs, isReferenceChar c = true) (hne : cs ≠ [])
    (hstop : ∀ c ∈ rest.head?, isReferenceChar c = false) :
    splitReference? (cs ++ rest) = some (cs, rest) := by
  have htake := takeWhile_exact h hstop
  have hdrop := dropWhile_exact h hstop
  unfold splitReference?
  split
  · next body heq =>
    obtain ⟨first, name, rfl⟩ := List.exists_cons_of_ne_nil hne
    have hfirst := h first List.mem_cons_self
    rw [(List.cons.inj heq).1] at hfirst
    exact absurd hfirst (by decide)
  · rw [htake, hdrop, if_neg (by simpa using hne)]

theorem splitReference?_plain (h : ∀ c ∈ cs, isReferenceChar c = true) (hne : cs ≠ [])
    (hgap : Gap rest) : splitReference? (cs ++ rest) = some (cs, rest) :=
  splitReference?_exact h hne (hgap.stops (by decide))

theorem splitReference?_braced (h : '}' ∉ cs) (hne : cs ≠ []) (rest : List Char) :
    splitReference? ('{' :: (cs ++ '}' :: rest)) = some (cs, rest) := by
  have hall : ∀ c ∈ cs, (c != '}') = true := fun c hc => bne_iff_ne.2 (ne_of_mem_of_not_mem hc h)
  have hstop : ∀ c ∈ ('}' :: rest).head?, (c != '}') = false := by simp
  have htake := takeWhile_exact hall hstop
  have hdrop := dropWhile_exact hall hstop
  obtain ⟨first, name, rfl⟩ := List.exists_cons_of_ne_nil hne
  rw [splitReference?, htake, hdrop]

theorem scanSign_digit (h : Number.isDigit c = true) (cs : List Char) :
    Number.scanSign (c :: cs) = (false, c :: cs) := by
  rw [Number.scanSign]
  · intro _ heq
    rw [(List.cons.inj heq).1] at h
    exact absurd h (by decide)
  · intro _ heq
    rw [(List.cons.inj heq).1] at h
    exact absurd h (by decide)

theorem splitExponent_gap (h : Exponent cs) (hgap : Gap rest) :
    Number.splitExponent (cs ++ rest) = (cs, rest) := by
  cases h with
  | none =>
    cases rest with
    | nil => rfl
    | cons c rest =>
      obtain rfl : c = ' ' := hgap c rfl
      rfl
  | @some mark sign digits hmark hsign hdigits hne =>
    have hscan : (Number.scanSign (sign ++ digits ++ rest)).2 = digits ++ rest := by
      rcases hsign with rfl | rfl | rfl
      · obtain ⟨d, ds, rfl⟩ := List.exists_cons_of_ne_nil hne
        rw [List.nil_append, List.cons_append, scanSign_digit (hdigits d List.mem_cons_self)]
      · rfl
      · rfl
    have hstop := hgap.stops (p := Number.isDigit) (by decide)
    have htake := takeWhile_exact hdigits hstop
    have hdrop := dropWhile_exact hdigits hstop
    rw [List.cons_append, Number.splitExponent]
    dsimp only
    rw [hscan, htake, hdrop, if_pos (by simpa [hne] using hmark)]
    have hcount : (mark :: (sign ++ digits ++ rest)).length - rest.length
        = (mark :: (sign ++ digits)).length := by simp; omega
    rw [hcount]
    change ((mark :: (sign ++ digits) ++ rest).take _, (mark :: (sign ++ digits) ++ rest).drop _) =
      _
    rw [List.take_left, List.drop_left]

theorem Exponent.stops (h : Exponent cs) (hgap : Gap rest) :
    ∀ c ∈ (cs ++ rest).head?, Number.isDigit c = false ∧ c ≠ '.' := by
  intro c hc
  cases h with
  | none =>
    obtain rfl := hgap c hc
    decide
  | some hmark =>
    obtain rfl : _ = c := Option.some.inj hc
    rcases hmark with rfl | rfl <;> decide

theorem scanNumeral?_whole {exponent : List Char} (h : Digits cs) (hne : cs ≠ [])
    (hexponent : Exponent exponent) (hgap : Gap rest) :
    Number.scanNumeral? (cs ++ (exponent ++ rest)) = some (⟨cs, none, exponent⟩, rest) := by
  have hstop := hexponent.stops hgap
  have htake := takeWhile_exact h fun c hc => (hstop c hc).1
  have hdrop := dropWhile_exact h fun c hc => (hstop c hc).1
  have hsplit := splitExponent_gap hexponent hgap
  rw [Number.scanNumeral?, htake, hdrop]
  dsimp only
  split
  · next more heq =>
    exact absurd rfl (hstop '.' (by rw [heq]; rfl)).2
  · rw [if_neg (by simpa using hne), hsplit]

theorem scanNumeral?_fraction {part exponent : List Char} (h : Digits cs) (hpart : Digits part)
    (hne : cs ≠ [] ∨ part ≠ []) (hexponent : Exponent exponent) (hgap : Gap rest) :
    Number.scanNumeral? (cs ++ '.' :: (part ++ (exponent ++ rest)))
      = some (⟨cs, some part, exponent⟩, rest) := by
  have hpoint : ∀ c ∈ ('.' :: (part ++ (exponent ++ rest))).head?, Number.isDigit c = false := by
    rintro _ ⟨⟩
    decide
  have hstop := hexponent.stops hgap
  have htake := takeWhile_exact hpart fun c hc => (hstop c hc).1
  have hdrop := dropWhile_exact hpart fun c hc => (hstop c hc).1
  have hsplit := splitExponent_gap hexponent hgap
  have hsome : ¬(cs.isEmpty && part.isEmpty) = true := by rcases hne with hne | hne <;> simp [hne]
  rw [Number.scanNumeral?, takeWhile_exact h hpoint, dropWhile_exact h hpoint]
  simp only [htake, hdrop, hsplit, if_neg hsome]

/-- The characters of decimals, which the mark of hexadecimals is none of. -/
def Unmarked (cs : List Char) : Prop := ∀ c ∈ cs, c ≠ 'x' ∧ c ≠ 'X'

theorem Digits.unmarked (h : Digits cs) : Unmarked cs := by
  intro c hc
  have hdigit := h c hc
  constructor <;> rintro rfl <;> exact absurd hdigit (by decide)

theorem Exponent.unmarked (h : Exponent cs) : Unmarked cs := by
  cases h with
  | none => exact List.forall_mem_nil _
  | some hmark hsign hdigits =>
    refine List.forall_mem_cons.2 ⟨?_, List.forall_mem_append.2 ⟨?_, hdigits.unmarked⟩⟩
    · rcases hmark with rfl | rfl <;> decide
    · rcases hsign with rfl | rfl | rfl
      · exact List.forall_mem_nil _
      · exact List.forall_mem_singleton.2 (by decide)
      · exact List.forall_mem_singleton.2 (by decide)

theorem splitNumber?_decimal {numeral : Number.Numeral} (hmark : Unmarked cs) (hne : cs ≠ [])
    (hgap : Gap rest) (h : Number.scanNumeral? (cs ++ rest) = some (numeral, rest)) :
    splitNumber? (cs ++ rest) = some (numeral.text, rest) := by
  unfold splitNumber?
  rw [h]
  dsimp only
  split
  · next x more heq =>
    have hx : x ≠ 'x' ∧ x ≠ 'X' := by
      obtain ⟨first, cs, rfl⟩ := List.exists_cons_of_ne_nil hne
      obtain ⟨-, heq⟩ := List.cons.inj heq
      cases cs with
      | nil =>
        obtain rfl : rest = x :: more := heq
        obtain rfl := hgap x rfl
        decide
      | cons second cs =>
        obtain rfl : second = x := (List.cons.inj heq).1
        exact hmark second (by simp)
    rw [if_neg (by simp [hx])]
    rfl
  · rfl

theorem splitNumber?_literal (h : Numeric.Literal cs) (hgap : Gap rest) :
    splitNumber? (cs ++ rest) = some (cs, rest) := by
  cases h with
  | hexadecimal hx hdigits hne =>
    have hstop := hgap.stops (p := Number.isHexDigit) (by decide)
    rw [List.cons_append, List.cons_append, splitNumber?]
    dsimp only
    rw [takeWhile_exact hdigits hstop, dropWhile_exact hdigits hstop,
      if_pos (by simpa [hne] using hx)]
  | @whole digits exponent hdigits hne hexponent =>
    have hscan := scanNumeral?_whole hdigits hne hexponent hgap
    rw [← List.append_assoc] at hscan
    have hmark := List.forall_mem_append.2 ⟨hdigits.unmarked, hexponent.unmarked⟩
    rw [splitNumber?_decimal hmark (by simp [hne]) hgap hscan]
    simp [Number.Numeral.text]
  | @fraction whole part exponent hwhole hpart hne hexponent =>
    have hscan := scanNumeral?_fraction hwhole hpart hne hexponent hgap
    rw [← List.append_assoc, ← List.cons_append, ← List.append_assoc] at hscan
    have hmark : Unmarked (whole ++ '.' :: (part ++ exponent)) :=
      List.forall_mem_append.2 ⟨hwhole.unmarked, List.forall_mem_cons.2 ⟨by decide,
        List.forall_mem_append.2 ⟨hpart.unmarked, hexponent.unmarked⟩⟩⟩
    rw [splitNumber?_decimal hmark (by simp) hgap hscan]
    simp [Number.Numeral.text]

end RadarTimeline.Expr
