import RadarTimeline.Proofs.Expr.Scanning

namespace RadarTimeline.Expr

open Script

variable {cs rest text : List Char} {c : Char} {source : String} {token : Token} {ts : List Token}

theorem NameStart.ne {d : Char} (h : NameStart c) (hd : ¬NameStart d) : c ≠ d := by
  rintro rfl
  exact hd h

theorem NameStart.not_digit (h : NameStart c) : Number.isDigit c = false := by
  rcases h with h | rfl
  · simp only [isLetter, Bool.or_eq_true, Bool.and_eq_true, decide_eq_true_eq] at h
    grind [Number.isDigit, Number.digitValue?]
  · decide

theorem splitNumber?_name (h : NameStart c) (cs : List Char) :
    splitNumber? (c :: cs) = none := by
  have hscan : Number.scanNumeral? (c :: cs) = none := by
    rw [Number.scanNumeral?, List.takeWhile_cons, List.dropWhile_cons, h.not_digit]
    dsimp only
    split
    · next heq => exact absurd (List.cons.inj heq).1 (h.ne (by decide))
    · rfl
  unfold splitNumber?
  rw [hscan]
  split
  · next heq => exact absurd (List.cons.inj heq).1 (h.ne (by decide))
  · rfl

theorem NameStart.isNameChar (h : NameStart c) : isNameChar c = true := by
  rcases h with h | rfl
  · simp [Expr.isNameChar, h]
  · decide

theorem nextToken_name (hc : NameStart c) (hcs : ∀ d ∈ cs, isNameChar d = true)
    (hgap : Gap rest) :
    nextToken source c (cs ++ rest)
      = (nameToken source (c :: cs) rest).map fun token => (token, rest) := by
  have hall : ∀ d ∈ c :: cs, isNameChar d = true := List.forall_mem_cons.2 ⟨hc.isNameChar, hcs⟩
  have hstop := hgap.stops (p := isNameChar) (by decide)
  have htake := takeWhile_exact hall hstop
  have hdrop := dropWhile_exact hall hstop
  rw [List.cons_append] at htake hdrop
  have hletter : (isLetter c || decide (c = '_')) = true := by simpa [NameStart] using hc
  rw [nextToken, splitNumber?_name hc]
  dsimp only
  rw [if_neg (hc.ne (by decide)), if_neg (hc.ne (by decide)), if_neg (hc.ne (by decide)),
    if_neg (hc.ne (by decide)), if_neg (hc.ne (by decide)), if_neg (hc.ne (by decide)),
    if_neg (hc.ne (by decide)), if_pos hletter, htake, hdrop]

theorem nextToken_function (hc : NameStart c) (hcs : ∀ d ∈ cs, isNameChar d = true)
    (heq : c :: cs ≠ ['e', 'q']) (hne : c :: cs ≠ ['n', 'e']) (hgap : Gap rest)
    (hcall : (rest.dropWhile Text.isBlank).head? = some '(') :
    nextToken source c (cs ++ rest) = .ok (.function (String.ofList (c :: cs)), rest) := by
  have hword : ∀ word : String, c :: cs ≠ word.toList → String.ofList (c :: cs) ≠ word := by
    rintro word h rfl
    exact h (by rw [String.toList_ofList])
  rw [nextToken_name hc hcs hgap, nameToken, if_neg (hword "eq" heq), if_neg (hword "ne" hne),
    if_pos hcall]
  rfl

theorem Gap.cases (h : Gap rest) : rest = [] ∨ ∃ more, rest = ' ' :: more := by
  cases rest with
  | nil => exact .inl rfl
  | cons c more => exact .inr ⟨more, h c rfl ▸ rfl⟩

/-- What is no name is an operator or a mark as its first characters say. -/
theorem nextToken_sign (h : token.sign? = some (c :: cs)) (hgap : Gap rest) :
    nextToken source c (cs ++ rest) = .ok (token, rest) := by
  cases token with
  | operand => nomatch h
  | function => nomatch h
  | operator op =>
    cases op
    case sameText | otherText =>
      cases h
      exact nextToken_name (by decide) (List.forall_mem_singleton.2 (by decide)) hgap
    all_goals
      cases h
      rcases hgap.cases with rfl | ⟨more, rfl⟩ <;> rfl
  | _ =>
    cases h
    rcases hgap.cases with rfl | ⟨more, rfl⟩ <;> rfl

theorem nextToken_operand {o : Operand} (h : o.Spelled (c :: cs)) (hgap : Gap rest) :
    nextToken source c (cs ++ rest) = .ok (.operand o, rest) := by
  cases h with
  | number h =>
    have hsplit := splitNumber?_literal h hgap
    rw [List.cons_append] at hsplit
    rw [nextToken, hsplit]
  | reference hne hname =>
    have hnumber : splitNumber? ('$' :: (cs ++ rest)) = none := rfl
    rw [nextToken, hnumber, if_pos rfl, splitReference?_plain hname hne hgap]
  | @bracedReference name hne hname =>
    have hnumber : splitNumber? ('$' :: '{' :: (name ++ '}' :: rest)) = none := rfl
    rw [List.cons_append, List.append_assoc, List.singleton_append, nextToken, hnumber, if_pos rfl,
      splitReference?_braced hname hne]
  | @command script h =>
    have hgroup : bracketGroup? ('[' :: (script ++ [']'] ++ rest)) = _ :=
      closeBracket?_append_right h rest
    have hnumber : splitNumber? ('[' :: (script ++ [']'] ++ rest)) = none := rfl
    rw [nextToken, hnumber, if_neg (by decide), if_pos rfl, hgroup]
    simp [inside]
  | @quoted text h =>
    have hnumber : splitNumber? ('"' :: (text ++ '"' :: rest)) = none := rfl
    rw [List.append_assoc, List.singleton_append, nextToken, hnumber, if_neg (by decide),
      if_neg (by decide), if_pos rfl, splitQuoted?_quotable h]
  | @braced text h =>
    have hgroup : braceGroup? ('{' :: (text ++ ['}'] ++ rest)) = _ :=
      closeBrace?_append_right h rest
    have hnumber : splitNumber? ('{' :: (text ++ ['}'] ++ rest)) = none := rfl
    rw [nextToken, hnumber, if_neg (by decide), if_neg (by decide), if_neg (by decide), if_pos rfl,
      hgroup]
    simp [inside]

/-- Tokens in which every function is called. -/
def Called : List Token → Prop
  | .function _ :: ts => ts.head? = some .openParen ∧ Called ts
  | _ :: ts => Called ts
  | [] => True

theorem Called.tail (h : Called (token :: ts)) : Called ts := by
  cases token with
  | function => exact h.2
  | _ => exact h

theorem Called.append {ts' : List Token} (h : Called ts) (h' : Called ts') :
    Called (ts ++ ts') := by
  induction ts with
  | nil => exact h'
  | cons token ts ih =>
    cases token with
    | function =>
      refine ⟨?_, ih h.2⟩
      cases ts with
      | nil => nomatch h.1
      | cons => exact h.1
    | _ => exact ih h

theorem Writes.head_openParen (h : Writes ts cs) (hts : ts.head? = some .openParen) :
    (cs.dropWhile Text.isBlank).head? = some '(' := by
  induction h with
  | nil => nomatch hts
  | space _ ih => exact ih hts
  | token htoken =>
    obtain rfl := Option.some.inj hts
    cases htoken with
    | sign h =>
      cases h
      rfl

theorem NameStart.not_blank (h : NameStart c) : Text.isBlank c = false := by
  rcases h with h | rfl
  · simp only [isLetter, Bool.or_eq_true, Bool.and_eq_true, decide_eq_true_eq] at h
    exact not_blank_of_range (by omega) (by omega)
  · decide

theorem Digits.cons (h : Digits text) (hne : text ≠ []) (more : List Char) :
    ∃ c cs, text ++ more = c :: cs ∧ Text.isBlank c = false := by
  obtain ⟨c, cs, rfl⟩ := List.exists_cons_of_ne_nil hne
  have hdigit := isHexDigit_of_digit (h c List.mem_cons_self)
  exact ⟨c, cs ++ more, rfl, not_blank_of_hexDigit hdigit⟩

theorem Token.Spelled.cons (h : token.Spelled text) :
    ∃ c cs, text = c :: cs ∧ Text.isBlank c = false := by
  cases h with
  | operand h =>
    cases h with
    | number h =>
      cases h with
      | hexadecimal => exact ⟨_, _, rfl, by decide⟩
      | whole hdigits hne => exact hdigits.cons hne _
      | @fraction whole part exponent hwhole hpart hne hexponent =>
        rcases eq_or_ne whole [] with rfl | hne
        · exact ⟨'.', _, rfl, by decide⟩
        · exact hwhole.cons hne _
    | _ => exact ⟨_, _, rfl, by decide⟩
  | function hc => exact ⟨_, _, rfl, NameStart.not_blank hc⟩
  | sign h =>
    cases token with
    | operand => nomatch h
    | function => nomatch h
    | operator op => cases op <;> cases h <;> exact ⟨_, _, rfl, by decide⟩
    | _ => cases h; exact ⟨_, _, rfl, by decide⟩

theorem tokensFrom_cons {fuel : Nat} (hblank : Text.isBlank c = false)
    (hnext : nextToken source c cs = .ok (token, rest))
    (hrest : tokensFrom source fuel rest = .ok ts) :
    tokensFrom source (fuel + 1) (c :: cs) = .ok (token :: ts) := by
  rw [tokensFrom, if_neg (by simp [hblank]), hnext]
  dsimp only
  rw [hrest]
  rfl

theorem nextToken_spelled (htoken : token.Spelled (c :: text)) (hgap : Gap rest)
    (hcall : (∃ name, token = .function name) → (rest.dropWhile Text.isBlank).head? = some '(') :
    nextToken source c (text ++ rest) = .ok (token, rest) := by
  cases htoken with
  | operand h => exact nextToken_operand h hgap
  | function hc hname heq hne => exact nextToken_function hc hname heq hne hgap (hcall ⟨_, rfl⟩)
  | sign h => exact nextToken_sign h hgap

theorem tokensFrom_writes (h : Writes ts cs) (hcalled : Called ts) {fuel : Nat}
    (hfuel : cs.length ≤ fuel) : tokensFrom source fuel cs = .ok ts := by
  induction h generalizing fuel with
  | nil => cases fuel <;> rfl
  | space _ ih =>
    obtain ⟨fuel, rfl⟩ := Nat.exists_eq_add_of_le' (Nat.one_le_of_lt hfuel)
    exact ih hcalled (Nat.le_of_succ_le_succ hfuel)
  | @token token text ts cs htoken hgap hwrites ih =>
    obtain ⟨c, text, rfl, hblank⟩ := htoken.cons
    obtain ⟨fuel, rfl⟩ := Nat.exists_eq_add_of_le' (Nat.one_le_of_lt hfuel)
    have hrest : tokensFrom source fuel cs = .ok ts :=
      ih hcalled.tail (by simp at hfuel; omega)
    refine tokensFrom_cons hblank (nextToken_spelled htoken hgap ?_) hrest
    rintro ⟨name, rfl⟩
    exact hwrites.head_openParen hcalled.1

end RadarTimeline.Expr
