import RadarTimeline.Proofs.Expr.Scanning
import Mathlib.Data.Nat.Digits.Defs

namespace RadarTimeline.Expr

variable {cs : List Char} {c : Char}

def digit (c : Char) : Nat :=
  ['0', '1', '2', '3', '4', '5', '6', '7', '8', '9', 'a', 'b', 'c', 'd', 'e', 'f'].idxOf c.toLower

def positional (base : Nat) (digits : List Char) : Nat :=
  Nat.ofDigits base (digits.reverse.map digit)

inductive IntegerLiteral : List Char → Prop
  | decimal {digits : List Char} (hdigits : Digits digits) (hne : digits ≠ []) :
    IntegerLiteral digits
  | hexadecimal {x : Char} {digits : List Char} (hx : x = 'x' ∨ x = 'X')
    (hdigits : HexDigits digits) (hne : digits ≠ []) : IntegerLiteral ('0' :: x :: digits)

def literalValue : List Char → Nat
  | '0' :: x :: digits =>
    if x = 'x' ∨ x = 'X' then positional 16 digits else positional 10 ('0' :: x :: digits)
  | digits => positional 10 digits

theorem forall_char_lt {P : Char → Prop} {bound : Nat} (h : ∀ n < bound, P (Char.ofNat n))
    (hc : c.toNat < bound) : P c := by
  have hof := h c.toNat hc
  rwa [Char.ofNat_toNat] at hof

theorem digitValue?_hex (h : Number.isHexDigit c = true) :
    Number.digitValue? 16 c = some (digit c) := by
  have hlt : c.toNat < 103 := by grind [Number.isHexDigit, Number.digitValue?]
  exact forall_char_lt
    (P := fun c => Number.isHexDigit c = true → Number.digitValue? 16 c = some (digit c))
    (by decide +kernel) hlt h

theorem digitValue?_decimal (h : Number.isDigit c = true) :
    Number.digitValue? 10 c = some (digit c) := by
  have hlt : c.toNat < 58 := by grind [Number.isDigit, Number.digitValue?]
  exact forall_char_lt
    (P := fun c => Number.isDigit c = true → Number.digitValue? 10 c = some (digit c))
    (by decide +kernel) hlt h

theorem digitsValue_eq {base : Nat} (h : ∀ c ∈ cs, Number.digitValue? base c = some (digit c)) :
    Number.digitsValue base cs = positional base cs := by
  induction cs using List.reverseRecOn with
  | nil => rfl
  | append_singleton cs c ih =>
    have hc := h c (by simp)
    have hcs := ih fun d hd => h d (by simp [hd])
    rw [Number.digitsValue] at hcs ⊢
    rw [List.foldl_append, hcs]
    simp [positional, Nat.ofDigits_cons, hc, add_comm]

theorem readDigits?_eq {base : Nat} (h : ∀ c ∈ cs, Number.digitValue? base c = some (digit c))
    (hne : cs ≠ []) : Number.readDigits? base cs = some (positional base cs) := by
  have hall : cs.all (fun c => (Number.digitValue? base c).isSome) = true :=
    List.all_eq_true.2 fun c hc => by rw [h c hc]; rfl
  rw [Number.readDigits?, hall, if_neg (by simpa using hne), digitsValue_eq h]

theorem literalValue_digits (h : Digits cs) : literalValue cs = positional 10 cs := by
  unfold literalValue
  split
  · next x digits =>
    have hx := h.unmarked x (by simp)
    rw [if_neg (by simp [hx])]
  · rfl

/-- Digits after a sign, or after none, are an integer in base ten. -/
theorem readInteger?_digits {negative : Bool} {digits : List Char} {n : Nat}
    (hscan : Number.scanSign cs = (negative, digits)) (hdigits : Digits digits)
    (hread : Number.readDigits? 10 digits = some n) :
    Number.readInteger? cs = some (if negative then -(n : Int) else n) := by
  unfold Number.readInteger?
  cases negative
  all_goals
    simp only [hscan, Bool.false_eq_true, if_false, if_true]
    split
    · next x rest =>
      have hx := hdigits.unmarked x (by simp)
      rw [if_neg (by simp [hx]), hread]
      rfl
    · rw [hread]
      rfl

theorem readInteger?_literal (h : IntegerLiteral cs) :
    Number.readInteger? cs = some (literalValue cs : Int) := by
  cases h with
  | @hexadecimal x digits hx hdigits hne =>
    have hread := readDigits?_eq (fun c hc => digitValue?_hex (hdigits c hc)) hne
    have hmark : (x = 'x' || x = 'X') = true := by simpa using hx
    have hscan : Number.scanSign ('0' :: x :: digits) = (false, '0' :: x :: digits) := rfl
    simp only [Number.readInteger?, hscan, if_pos hmark, hread, literalValue, if_pos hx]
    rfl
  | decimal hdigits hne =>
    have hread := readDigits?_eq (fun c hc => digitValue?_decimal (hdigits c hc)) hne
    have hscan : Number.scanSign cs = (false, cs) := by
      obtain ⟨d, ds, rfl⟩ := List.exists_cons_of_ne_nil hne
      have hd := hdigits d List.mem_cons_self
      exact scanSign_digit hd ds
    rw [literalValue_digits hdigits, readInteger?_digits hscan hdigits hread]
    rfl

theorem trim_eq_self (h : ∀ c ∈ cs, Text.isBlank c = false) : Text.trim cs = cs := by
  have hdrop : ∀ ds : List Char, (∀ c ∈ ds, Text.isBlank c = false) →
      ds.dropWhile Text.isBlank = ds := by
    intro ds hds
    cases ds with
    | nil => rfl
    | cons d ds => rw [List.dropWhile_cons_of_neg (by simp [hds d List.mem_cons_self])]
  rw [Text.trim, Text.trimStart, hdrop cs h, Text.trimEnd,
    hdrop cs.reverse fun c hc => h c (List.mem_reverse.1 hc), List.reverse_reverse]

theorem IntegerLiteral.not_blank (h : IntegerLiteral cs) : ∀ c ∈ cs, Text.isBlank c = false := by
  cases h with
  | decimal hdigits =>
    exact fun c hc => not_blank_of_hexDigit (isHexDigit_of_digit (hdigits c hc))
  | hexadecimal hx hdigits =>
    refine List.forall_mem_cons.2 ⟨by decide, List.forall_mem_cons.2 ⟨?_, fun c hc =>
      not_blank_of_hexDigit (hdigits c hc)⟩⟩
    rcases hx with rfl | rfl <;> decide

theorem readValue_literal (h : IntegerLiteral cs) :
    readValue (String.ofList cs) = .int (literalValue cs) := by
  rw [readValue, String.toList_ofList, trim_eq_self h.not_blank, readInteger?_literal h]

theorem forbidden_not_digits : ∀ word ∈ forbiddenWords, '0' ∉ word.toList ∧
    word.toList.head? ≠ some 'x' ∧ word.toList.head? ≠ some 'X' ∧
    word.toList.all Number.isHexDigit = false := by
  decide +kernel

theorem HexDigits.allowed (h : HexDigits cs) : Allowed cs :=
  allowed_of_all (fun word hword => (forbidden_not_digits word hword).2.2.2) h

theorem IntegerLiteral.allowed (h : IntegerLiteral cs) : Allowed cs := by
  cases h with
  | decimal hdigits => exact HexDigits.allowed fun c hc => isHexDigit_of_digit (hdigits c hc)
  | @hexadecimal x digits hx hdigits =>
    intro word hword hin
    obtain ⟨hzero, hl, hu, -⟩ := forbidden_not_digits word hword
    rcases infix_append_cons [] hzero hin with hnil | htail
    · exact allowed_nil word hword hnil
    rcases List.infix_cons_iff.1 htail with hfront | hin
    · have hhead : word.toList.head? = some x := by
        obtain ⟨c, cs, hcons⟩ := List.exists_cons_of_ne_nil (forbidden_solid word hword).1
        rw [hcons, List.cons_prefix_cons] at hfront
        rw [hcons, hfront.1]
        rfl
      rcases hx with rfl | rfl
      · exact hl hhead
      · exact hu hhead
    · exact hdigits.allowed word hword hin

theorem IntegerLiteral.literal (h : IntegerLiteral cs) : Numeric.Literal cs := by
  cases h with
  | decimal hdigits hne =>
    have hwhole := Numeric.Literal.whole hdigits hne .none
    rwa [List.append_nil] at hwhole
  | hexadecimal hx hdigits hne => exact .hexadecimal hx hdigits hne

theorem IntegerLiteral.spelled {text : String} (h : IntegerLiteral text.toList) :
    Token.Spelled (.operand (.number text)) text.toList := by
  have hnumber := Operand.Spelled.number h.literal
  rw [String.ofList_toList] at hnumber
  exact .operand hnumber h.allowed

end RadarTimeline.Expr
