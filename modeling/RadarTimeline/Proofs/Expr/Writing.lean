import RadarTimeline.Proofs.Expr.Layout
import Mathlib.Data.List.Infix

namespace RadarTimeline.Expr

/-- A text with no forbidden word in it. -/
def Allowed (cs : List Char) : Prop := ∀ word ∈ forbiddenWords, ¬ word.toList <:+: cs

instance (cs : List Char) : Decidable (Allowed cs) :=
  inferInstanceAs (Decidable (∀ word ∈ forbiddenWords, ¬ word.toList <:+: cs))

def Digits (cs : List Char) : Prop := ∀ c ∈ cs, Number.isDigit c = true

def HexDigits (cs : List Char) : Prop := ∀ c ∈ cs, Number.isHexDigit c = true

/-- Names start like nothing else does. -/
def NameStart (c : Char) : Prop := isLetter c = true ∨ c = '_'

instance (c : Char) : Decidable (NameStart c) := inferInstanceAs (Decidable (_ ∨ _))

/-- The exponent of a decimal, or nothing. -/
inductive Exponent : List Char → Prop
  | none : Exponent []
  | some {mark : Char} {sign digits : List Char} (hmark : mark = 'e' ∨ mark = 'E')
    (hsign : sign = [] ∨ sign = ['+'] ∨ sign = ['-']) (hdigits : Digits digits)
    (hne : digits ≠ []) : Exponent (mark :: (sign ++ digits))

/-- Numbers without a sign: hexadecimals, and decimals with or without a point and an exponent. -/
inductive Numeric.Literal : List Char → Prop
  | hexadecimal {x : Char} {digits : List Char} (hx : x = 'x' ∨ x = 'X')
    (hdigits : HexDigits digits) (hne : digits ≠ []) : Literal ('0' :: x :: digits)
  | whole {digits exponent : List Char} (hdigits : Digits digits) (hne : digits ≠ [])
    (hexponent : Exponent exponent) : Literal (digits ++ exponent)
  | fraction {whole part exponent : List Char} (hwhole : Digits whole) (hpart : Digits part)
    (hne : whole ≠ [] ∨ part ≠ []) (hexponent : Exponent exponent) :
    Literal (whole ++ '.' :: (part ++ exponent))

/-- A text in which backslashes escape every quote and the character after them. -/
inductive Quotable : List Char → Prop
  | nil : Quotable []
  | escaped {c : Char} {cs : List Char} (h : Quotable cs) : Quotable ('\\' :: c :: cs)
  | plain {c : Char} {cs : List Char} (hc : c ≠ '\\') (hq : c ≠ '"') (h : Quotable cs) :
    Quotable (c :: cs)

/-- The texts that write an operand. -/
inductive Operand.Spelled : Operand → List Char → Prop
  | number {text : List Char} (h : Numeric.Literal text) :
    Spelled (.number (String.ofList text)) text
  | reference {name : List Char} (hne : name ≠ []) (h : ∀ c ∈ name, isReferenceChar c = true) :
    Spelled (.variable (String.ofList name)) ('$' :: name)
  | bracedReference {name : List Char} (hne : name ≠ []) (h : '}' ∉ name) :
    Spelled (.variable (String.ofList name)) ('$' :: '{' :: (name ++ ['}']))
  | command {script : List Char}
    (h : Script.bracketGroup? ('[' :: (script ++ [']'])) = some ('[' :: (script ++ [']']), [])) :
    Spelled (.command (String.ofList script)) ('[' :: (script ++ [']']))
  | quoted {text : List Char} (h : Quotable text) :
    Spelled (.quoted (String.ofList text)) ('"' :: (text ++ ['"']))
  | braced {text : List Char}
    (h : Script.braceGroup? ('{' :: (text ++ ['}'])) = some ('{' :: (text ++ ['}']), [])) :
    Spelled (.braced (String.ofList text)) ('{' :: (text ++ ['}']))

example : Operand.Spelled (.command (String.ofList "f [g]".toList)) "[f [g]]".toList :=
  .command rfl

/-- The text of a token that has only one. -/
def Token.sign? : Token → Option (List Char)
  | .operator op => some op.symbol.toList
  | .not => some ['!']
  | .complement => some ['~']
  | .question => some ['?']
  | .colon => some [':']
  | .openParen => some ['(']
  | .closeParen => some [')']
  | .comma => some [',']
  | .operand _ | .function _ => none

/-- The texts that write a token. -/
inductive Token.Spelled : Token → List Char → Prop
  | operand {o : Operand} {text : List Char} (h : o.Spelled text) (hallowed : Allowed text) :
    Spelled (.operand o) text
  | function {c : Char} {name : List Char} (hc : NameStart c)
    (h : ∀ d ∈ name, isNameChar d = true) (heq : c :: name ≠ ['e', 'q'])
    (hne : c :: name ≠ ['n', 'e']) (hallowed : Allowed (c :: name)) :
    Spelled (.function (String.ofList (c :: name))) (c :: name)
  | sign {token : Token} {text : List Char} (h : token.sign? = some text) : Spelled token text

/-- Nothing, or a text that starts with a space. -/
def Gap (cs : List Char) : Prop := ∀ c ∈ cs.head?, c = ' '

/-- The texts that write tokens with spaces between them. -/
inductive Writes : List Token → List Char → Prop
  | nil : Writes [] []
  | space {ts : List Token} {cs : List Char} (h : Writes ts cs) : Writes ts (' ' :: cs)
  | token {token : Token} {text : List Char} {ts : List Token} {cs : List Char}
    (htoken : token.Spelled text) (hgap : Gap cs) (h : Writes ts cs) :
    Writes (token :: ts) (text ++ cs)

theorem gap_nil : Gap [] := by
  simp [Gap]

theorem gap_space (cs : List Char) : Gap (' ' :: cs) := by
  simp [Gap]

theorem containsList_iff (part cs : List Char) :
    Text.containsList part cs = true ↔ part <:+: cs := by
  induction cs with
  | nil => simp [Text.containsList]
  | cons c cs ih =>
    rw [Text.containsList, Bool.or_eq_true, ih, List.isPrefixOf_iff_prefix, List.infix_cons_iff]

theorem checkAllowed_eq {cs : List Char} (h : Allowed cs) :
    checkAllowed (String.ofList cs) = .ok () := by
  have hnone : forbiddenWords.find? (fun word => Text.contains word (String.ofList cs)) = none := by
    rw [List.find?_eq_none]
    intro word hword hcontains
    rw [Text.contains, String.toList_ofList, containsList_iff] at hcontains
    exact h word hword hcontains
  rw [checkAllowed, hnone]

/-- What stands around a character that a word does not have holds the word on one of its sides. -/
theorem infix_append_cons {part ys : List Char} {c : Char} (xs : List Char) (hc : c ∉ part)
    (h : part <:+: xs ++ c :: ys) : part <:+: xs ∨ part <:+: ys := by
  induction xs with
  | nil =>
    rcases List.infix_cons_iff.1 h with hp | hi
    · cases part with
      | nil => exact .inl List.infix_rfl
      | cons d part =>
        rw [List.cons_prefix_cons] at hp
        exact absurd (hp.1 ▸ List.mem_cons_self) hc
    · exact .inr hi
  | cons x xs ih =>
    rw [List.cons_append, List.infix_cons_iff] at h
    rcases h with hp | hi
    · left
      rw [← List.cons_append] at hp
      rcases List.prefix_or_prefix_of_prefix hp (List.prefix_append (x :: xs ++ [c]) ys |>.trans
        (by simp)) with hshort | hlong
      · rcases List.prefix_concat_iff.1 hshort with rfl | hxs
        · exact absurd (by simp) hc
        · exact hxs.isInfix
      · exact absurd (hlong.subset (by simp)) hc
    · exact (ih hi).imp_left fun h => h.trans (List.suffix_cons x xs).isInfix

theorem forbidden_solid : ∀ word ∈ forbiddenWords, word.toList ≠ [] ∧ ' ' ∉ word.toList := by
  decide +kernel

theorem allowed_nil : Allowed [] := by
  intro word hword h
  exact (forbidden_solid word hword).1 (List.infix_nil.1 h)

theorem allowed_of_all {cs : List Char} {kind : Char → Bool}
    (hwords : ∀ word ∈ forbiddenWords, word.toList.all kind = false) (h : ∀ c ∈ cs, kind c = true) :
    Allowed cs := by
  intro word hword hin
  have hall : word.toList.all kind = true := List.all_eq_true.2 fun c hc => h c (hin.subset hc)
  exact Bool.false_ne_true ((hwords word hword).symm.trans hall)

theorem allowed_space {cs : List Char} (h : Allowed cs) : Allowed (' ' :: cs) := by
  intro word hword hin
  rcases infix_append_cons [] (forbidden_solid word hword).2 hin with hl | hr
  · exact allowed_nil word hword hl
  · exact h word hword hr

theorem allowed_append {xs ys : List Char} (hx : Allowed xs) (hgap : Gap ys) (hy : Allowed ys) :
    Allowed (xs ++ ys) := by
  intro word hword hin
  cases ys with
  | nil => exact hx word hword (by rwa [List.append_nil] at hin)
  | cons c ys =>
    obtain rfl : c = ' ' := hgap c rfl
    rcases infix_append_cons xs (forbidden_solid word hword).2 hin with hl | hr
    · exact hx word hword hl
    · exact hy word hword (hr.trans (List.suffix_cons ' ' ys).isInfix)

theorem allowed_symbol (op : BinaryOp) : Allowed op.symbol.toList := by
  unfold Allowed
  cases op <;> decide +kernel

theorem Token.Spelled.allowed {token : Token} {text : List Char} (h : token.Spelled text) :
    Allowed text := by
  cases h with
  | operand _ h => exact h
  | function _ _ _ _ h => exact h
  | sign h =>
    cases token with
    | operator op =>
      cases h
      exact allowed_symbol op
    | operand => nomatch h
    | function => nomatch h
    | _ =>
      cases h
      unfold Allowed
      decide +kernel

theorem Writes.allowed {ts : List Token} {cs : List Char} (h : Writes ts cs) : Allowed cs := by
  induction h with
  | nil => exact allowed_nil
  | space _ ih => exact allowed_space ih
  | token htoken hgap _ ih => exact allowed_append htoken.allowed hgap ih

theorem writes_intercalate {ts : List Token} {texts : List (List Char)}
    (h : List.Forall₂ Token.Spelled ts texts) : Writes ts ([' '].intercalate texts) := by
  induction h with
  | nil => exact .nil
  | @cons token text ts texts htoken htokens ih =>
    cases htokens with
    | nil =>
      have hwrites := Writes.token htoken gap_nil .nil
      simpa [List.intercalate] using hwrites
    | cons =>
      rw [List.intercalate_cons_cons, List.append_assoc]
      exact .token htoken (gap_space _) (.space ih)

/-- Tokens can be written together if each of them can. -/
theorem exists_writes_iff {ts : List Token} :
    (∃ cs, Writes ts cs) ↔ ∀ token ∈ ts, ∃ text, token.Spelled text := by
  constructor
  · rintro ⟨cs, h⟩
    induction h with
    | nil => exact List.forall_mem_nil _
    | space _ ih => exact ih
    | token htoken _ _ ih => exact List.forall_mem_cons.2 ⟨⟨_, htoken⟩, ih⟩
  · intro h
    obtain ⟨texts, htexts⟩ : ∃ texts, List.Forall₂ Token.Spelled ts texts := by
      induction ts with
      | nil => exact ⟨[], .nil⟩
      | cons token ts ih =>
        obtain ⟨⟨text, htoken⟩, hts⟩ := List.forall_mem_cons.1 h
        obtain ⟨texts, htexts⟩ := ih hts
        exact ⟨text :: texts, .cons htoken htexts⟩
    exact ⟨_, writes_intercalate htexts⟩

end RadarTimeline.Expr
