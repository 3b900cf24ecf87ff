import RadarTimeline.Console.Call
import RadarTimeline.Proofs.Expr.IntegerValues
import RadarTimeline.Proofs.Expr.Parsing
import RadarTimeline.Proofs.Script.ReferenceWords

namespace RadarTimeline.Console

open Script

variable {cs name rest : List Char} {c : Char}

theorem isLetter_eq (c : Char) : Expr.isLetter c = c.isAlpha := by
  rw [Bool.eq_iff_iff]
  simp [Expr.isLetter, Char.isAlpha, Char.isUpper, Char.isLower, UInt32.le_iff_toNat_le]

theorem isReferenceChar_eq (c : Char) :
    Expr.isReferenceChar c = (Piece.isNameChar c || decide (c = ':')) := by
  rw [Expr.isReferenceChar, isLetter_eq, Expr.isDigit_eq]
  rfl

theorem isReferenceChar_of_name (h : Piece.isNameChar c = true) :
    Expr.isReferenceChar c = true := by
  rw [isReferenceChar_eq, h, Bool.true_or]

theorem dropWhile_stops (p : Char → Bool) (cs : List Char) :
    ∀ c ∈ (cs.dropWhile p).head?, p c = false := by
  intro c hc
  have hstop := List.head?_dropWhile_not p cs
  rw [show (cs.dropWhile p).head? = some c from hc] at hstop
  exact hstop

theorem qualifiers_spec (h : ∀ c ∈ cs.head?, Piece.isNameChar c = false) :
    (Piece.qualifiers cs).1 ++ (Piece.qualifiers cs).2 = cs ∧
      (∀ c ∈ (Piece.qualifiers cs).1, Expr.isReferenceChar c = true) ∧
      ∀ c ∈ (Piece.qualifiers cs).2.head?, Piece.isNameChar c = false := by
  fun_induction Piece.qualifiers cs with
  | case1 c cs hc more rest hmore ih =>
    obtain ⟨happend, hchars, hstop⟩ := ih (dropWhile_stops _ cs)
    rw [hmore] at happend hchars hstop
    refine ⟨?_, ?_, hstop⟩
    · rw [List.append_assoc, happend]
      simp
    · have htaken : ∀ c ∈ cs.takeWhile Piece.isNameChar, Expr.isReferenceChar c =
        true := fun c hc =>
        isReferenceChar_of_name (List.all_eq_true.1 List.all_takeWhile c hc)
      simp only [List.cons_append, List.forall_mem_cons, List.forall_mem_append]
      exact ⟨by decide, by decide, isReferenceChar_of_name hc, htaken, hchars⟩
  | case2 c cs hc => exact ⟨rfl, by simp, h⟩
  | case3 cs => exact ⟨rfl, by simp, h⟩

/-- Where substitution reads a plain reference, expressions read one that goes on with the
characters of references after it. -/
theorem splitReference?_of_plain {x : String} (hplain : cs.head? ≠ some '{')
    (h : Piece.reference? cs = some (x, rest)) :
    Expr.splitReference? cs =
        some (x.toList ++ rest.takeWhile Expr.isReferenceChar,
          rest.dropWhile Expr.isReferenceChar) ∧
      ∀ c ∈ rest.head?, Piece.isNameChar c = false := by
  cases cs with
  | nil => cases h
  | cons c cs =>
    have hbrace : c ≠ '{' := fun hc => hplain (by rw [hc]; rfl)
    rw [Piece.reference?, if_neg hbrace] at h
    split at h
    · next hc =>
      obtain ⟨happend, hchars, hstop⟩ := qualifiers_spec (dropWhile_stops Piece.isNameChar cs)
      cases h
      refine ⟨?_, hstop⟩
      have hname : ∀ d ∈ c :: (cs.takeWhile Piece.isNameChar ++
          (Piece.qualifiers (cs.dropWhile Piece.isNameChar)).1), Expr.isReferenceChar d = true := by
        simp only [List.forall_mem_cons, List.forall_mem_append]
        exact ⟨isReferenceChar_of_name hc,
          fun d hd => isReferenceChar_of_name (List.all_eq_true.1 List.all_takeWhile d hd), hchars⟩
      generalize (Piece.qualifiers (cs.dropWhile Piece.isNameChar)).2 = rest at happend
      have hmore : ∀ d ∈ rest.takeWhile Expr.isReferenceChar, Expr.isReferenceChar d = true :=
        List.all_eq_true.1 List.all_takeWhile
      have hread := Expr.splitReference?_exact (List.forall_mem_append.2 ⟨hname, hmore⟩) (by simp)
        (dropWhile_stops Expr.isReferenceChar rest)
      rw [List.append_assoc, List.takeWhile_append_dropWhile, List.cons_append, List.append_assoc,
        happend, List.takeWhile_append_dropWhile] at hread
      rw [hread, String.toList_ofList]
      rfl
    · cases h

theorem takeWhile_eq_nil_iff (hstop : ∀ c ∈ rest.head?, Piece.isNameChar c = false) :
    rest.takeWhile Expr.isReferenceChar = [] ↔ rest.head? ≠ some ':' := by
  cases rest with
  | nil => simp
  | cons c rest =>
    have hc : Piece.isNameChar c = false := hstop c rfl
    simp [List.takeWhile_cons, isReferenceChar_eq, hc]

theorem nextToken_reference (h : Expr.splitReference? cs = some (name, rest)) (source : String) :
    Expr.nextToken source '$' cs = .ok (.operand (.variable (String.ofList name)), rest) := by
  have hnumber : Expr.splitNumber? ('$' :: cs) = none := rfl
  rw [Expr.nextToken, hnumber]
  dsimp only
  rw [if_pos rfl, h]

theorem reference?_braced (hclose : '}' ∉ name) (cs : List Char) :
    Piece.reference? ('{' :: (name ++ '}' :: cs)) = some (String.ofList name, cs) := by
  have hall : ∀ c ∈ name, (c != '}') = true :=
    fun c hc => bne_iff_ne.2 (ne_of_mem_of_not_mem hc hclose)
  have hstop : ∀ c ∈ ('}' :: cs).head?, (c != '}') = false := by simp
  rw [Piece.reference?, if_pos rfl, Expr.dropWhile_exact hall hstop,
    Expr.takeWhile_exact hall hstop]

theorem ofChars_reference {x : String} (h : Piece.reference? cs = some (x, rest)) :
    Piece.ofChars ('$' :: cs) = .variable x :: Piece.ofChars rest := by
  rw [Piece.ofChars, if_pos rfl]
  · split
    · next heq =>
      rw [h] at heq
      cases heq
      rfl
    · next heq =>
      rw [h] at heq
      cases heq
  all_goals simp

theorem ofChars_braced (hclose : '}' ∉ name) (cs : List Char) :
    Piece.ofChars (braced name ++ cs) = .variable (String.ofList name) :: Piece.ofChars cs := by
  have hsource : braced name ++ cs = '$' :: '{' :: (name ++ '}' :: cs) := by simp [braced]
  rw [hsource, ofChars_reference (reference?_braced hclose cs)]

theorem substitute_braced (hclose : '}' ∉ name) (run : Runner) (scope : Nat) (text : String)
    (location : Script.Location) :
    substitute run scope (String.ofList (braced name) ++ text) location = do
      let value ← variableValue scope (String.ofList name) location
      return value ++ (← substitute run scope text location) := by
  simp only [substitute, String.toList_append, String.toList_ofList, ofChars_braced hclose,
    List.mapM_cons, bind_assoc, pure_bind, String.join_cons]
  rfl

theorem substitute_braced_self (hclose : '}' ∉ name) (run : Runner) (scope : Nat)
    (location : Script.Location) :
    substitute run scope (String.ofList (braced name)) location =
      variableValue scope (String.ofList name) location := by
  have hcut : Piece.ofChars (braced name) = [.variable (String.ofList name)] := by
    have hself := ofChars_braced hclose []
    rwa [List.append_nil, Piece.ofChars] at hself
  rw [substitute, String.toList_ofList, hcut]
  simp [Piece.value, String.join_cons]

theorem wordValue_braced {w : Word} (hclose : '}' ∉ name)
    (hkind : w.kind = .bare ∨ w.kind = .quoted)
    (htext : w.text = String.ofList (braced name)) (run : Runner) (scope : Nat)
    (command : Script.Command) :
    wordValue run scope command w =
      variableValue scope (String.ofList name) (command.wordLocation w) := by
  rw [← substitute_braced_self hclose run, ← htext, wordValue]
  rcases hkind with hkind | hkind <;> rw [hkind]

theorem tokens_braced (hname : name ≠ []) (hclose : '}' ∉ name) :
    Expr.tokens (String.ofList (braced name)) =
      .ok [.operand (.variable (String.ofList name))] := by
  have hread : ∀ source, Expr.nextToken source '$' ('{' :: (name ++ ['}'])) =
      .ok (.operand (.variable (String.ofList name)), []) :=
    nextToken_reference (Expr.splitReference?_braced hclose hname [])
  rw [Expr.tokens, String.toList_ofList, String.length_ofList, braced, List.length_cons,
    Expr.tokensFrom, if_neg (by decide), hread]
  rfl

theorem parse_braced (hname : name ≠ []) (hclose : '}' ∉ name) :
    Expr.parse (String.ofList (braced name)) =
      (Expr.checkAllowed (String.ofList (braced name))).map fun _ =>
        .operand (.variable (String.ofList name)) := by
  rw [Expr.parse, tokens_braced hname hclose]
  cases Expr.checkAllowed (String.ofList (braced name)) with
  | error => rfl
  | ok =>
    exact Expr.treeOf_layout (String.ofList (braced name))
      (.operand (.variable (String.ofList name)))

section Evaluation

variable {m : Type → Type} [Monad m] [LawfulMonad m] {source x : String}

theorem evaluate_operand (h : Expr.parse source = .ok (.operand (.variable x)))
    (ctx : Expr.Context m) :
    (Expr.evaluate ctx source).run = do
      return (Expr.substituted (← ctx.valueOf x)).map Expr.Value.text := by
  rw [Expr.evaluate, h, Expr.lift_ok_bind, Expr.Tree.eval, Expr.Operand.value, bind_assoc,
    ExceptT.run_bind_lift]
  refine congrArg (ctx.valueOf x >>= ·) (funext fun text => ?_)
  cases Expr.substituted text with
  | error fault => exact congrArg ExceptT.run (Expr.lift_error_bind fault _)
  | ok value => exact congrArg ExceptT.run (Expr.lift_ok_bind value _)

end Evaluation

theorem evaluate_variable {source x : String} (h : Expr.parse source = .ok (.operand (.variable x)))
    (call : Call) :
    call.evaluate source = (do
      let text ← variableValue call.scope x call.command.location
      liftM (((Expr.substituted text).map Expr.Value.text).mapError CommandFault.expression)) := by
  apply ExceptT.ext
  rw [Call.evaluate]
  change (ExceptT.lift _ >>= _).run = (ExceptT.lift _ >>= _).run
  rw [ExceptT.run_bind_lift, ExceptT.run_bind_lift]
  change (Expr.evaluate _ source).run >>= _ = variableValue call.scope x call.command.location >>= _
  rw [evaluate_operand h, bind_assoc]
  refine congrArg (variableValue call.scope x call.command.location >>= ·) (funext fun text => ?_)
  rw [pure_bind]
  cases Expr.substituted text <;> rfl

theorem evaluate_braced (hname : name ≠ []) (hclose : '}' ∉ name) (call : Call) :
    call.evaluate (String.ofList (braced name)) = (do
      liftM ((Expr.checkAllowed (String.ofList (braced name))).mapError CommandFault.expression)
      let text ← variableValue call.scope (String.ofList name) call.command.location
      liftM (((Expr.substituted text).map Expr.Value.text).mapError CommandFault.expression)) := by
  have hparse := parse_braced hname hclose
  cases hallowed : Expr.checkAllowed (String.ofList (braced name)) with
  | error fault =>
    rw [hallowed] at hparse
    rw [Call.evaluate, Expr.evaluate, hparse]
    rfl
  | ok =>
    rw [hallowed] at hparse
    rw [evaluate_variable hparse]
    rfl

/-- A source that is one word where a word of a command begins. The value of the word is that of a
variable. -/
def IsVariableWord (source name : List Char) : Prop :=
  ∀ filename cur words rest, atSeparator rest = true →
    ∃ cur' w, scan filename cur words (source ++ rest) = scan filename cur' (w :: words) rest ∧
      ∀ run scope command, wordValue run scope command w =
        variableValue scope (String.ofList name) (command.wordLocation w)

theorem begins_dollar : Begins '$' := by
  refine ⟨by decide, ?_, ?_, ?_, ?_⟩ <;> decide

theorem begins_quote : Begins '"' := by
  refine ⟨by decide, ?_, ?_, ?_, ?_⟩ <;> decide

theorem isVariableWord_of_readWord {kind : WordKind} {source span : List Char} (hc : Begins c)
    (hkind : kind = .bare ∨ kind = .quoted) (hclose : '}' ∉ name)
    (hread : ∀ rest, atSeparator rest = true →
      readWord (c :: source ++ rest) = .ok (kind, ⟨span, braced name, rest⟩)) :
    IsVariableWord (c :: source) name := by
  intro filename cur words rest hrest
  obtain ⟨cur', w, hwkind, hwtext, hscan⟩ :=
    scan_word filename cur words hc (hread rest hrest) hrest
  exact ⟨cur', w, hscan, wordValue_braced hclose (hwkind ▸ hkind) hwtext⟩

/-- What a reference in braces is in the places it can stand at. -/
structure OneReference (name : List Char) : Prop where
  /-- In a text that is substituted, it is one piece. -/
  piece : ∀ cs, Piece.ofChars (braced name ++ cs) = .variable (String.ofList name) ::
    Piece.ofChars cs
  /-- Its value stands in front of the rest of the text, which is substituted after it. -/
  substituted : ∀ run scope text location,
    substitute run scope (String.ofList (braced name) ++ text) location = do
      let value ← variableValue scope (String.ofList name) location
      return value ++ (← substitute run scope text location)
  /-- It is all of a bare word exactly if no separator divides the name. -/
  bare : ∀ rest, atSeparator rest = true →
    (readWord (braced name ++ rest) = .ok (.bare, ⟨braced name, braced name, rest⟩) ↔
      undivided endsBare name = true)
  bareWord : undivided endsBare name = true → IsVariableWord (braced name) name
  /-- It is all of a quoted word exactly if no quote and no joined line divides the name. -/
  quoted : ∀ rest,
    readWord ('"' :: (braced name ++ '"' :: rest)) =
        .ok (.quoted, ⟨'"' :: (braced name ++ ['"']), braced name, rest⟩) ↔
      undivided endsQuoted name = true
  quotedWord : undivided endsQuoted name = true →
    IsVariableWord ('"' :: (braced name ++ ['"'])) name
  /-- Among other text between quotes it is part of that text. -/
  inQuotes : undivided endsQuoted name = true → ∀ cs,
    (quotedBody (braced name ++ cs)).toOption =
      (quotedBody cs).toOption.map (Taken.cover (braced name) (braced name))
  /-- In an expression it is one operand. -/
  token : ∀ source cs, Expr.nextToken source '$' ('{' :: (name ++ '}' :: cs)) =
    .ok (.operand (.variable (String.ofList name)), cs)
  /-- As all of an expression it has the value of the variable, if its text may stand in an
  expression. -/
  expression : ∀ call : Call, call.evaluate (String.ofList (braced name)) = (do
    liftM ((Expr.checkAllowed (String.ofList (braced name))).mapError CommandFault.expression)
    let text ← variableValue call.scope (String.ofList name) call.command.location
    liftM (((Expr.substituted text).map Expr.Value.text).mapError CommandFault.expression))

theorem oneReference (hname : name ≠ []) (hclose : '}' ∉ name) : OneReference name where
  piece := ofChars_braced hclose
  substituted := substitute_braced hclose
  bare _ hrest := readWord_bare_iff hrest
  bareWord h := isVariableWord_of_readWord begins_dollar (.inl rfl) hclose fun _ hrest =>
    (readWord_bare_iff hrest).2 h
  quoted := readWord_quoted_iff
  quotedWord h := by
    have hread : ∀ rest, atSeparator rest = true →
      readWord ('"' :: (braced name ++ ['"']) ++ rest) =
        .ok (.quoted, ⟨'"' :: (braced name ++ ['"']), braced name, rest⟩) := fun rest _ => by
      simpa using (readWord_quoted_iff rest).2 h
    exact isVariableWord_of_readWord begins_quote (.inr rfl) hclose hread
  inQuotes h := quotedBody_readsText.read_braced (by decide) (by decide) (by decide) h
  token source cs := nextToken_reference (Expr.splitReference?_braced hclose hname cs) source
  expression := evaluate_braced hname hclose

/-- Where a text has a plain reference, an expression has one, too. The names are the same exactly
if no colon follows that of the text, and then so are the places where they end. A reference in
braces is one reference wherever it stands, except that the word it is in may end inside its
name. -/
theorem references_agree (cs name : List Char) :
    (∀ rest x, cs.head? ≠ some '{' → Piece.reference? cs = some (x, rest) →
      Piece.ofChars ('$' :: cs) = .variable x :: Piece.ofChars rest ∧
      ∃ y rest', (∀ source, Expr.nextToken source '$' cs = .ok (.operand (.variable y), rest')) ∧
        (y = x ↔ rest.head? ≠ some ':') ∧ (y = x → rest' = rest)) ∧
    (name ≠ [] → '}' ∉ name → OneReference name) := by
  refine ⟨fun rest x hplain h => ⟨ofChars_reference h, ?_⟩, oneReference⟩
  obtain ⟨hread, hstop⟩ := splitReference?_of_plain hplain h
  have hnone := takeWhile_eq_nil_iff hstop
  have hsame : String.ofList (x.toList ++ rest.takeWhile Expr.isReferenceChar) = x ↔
      rest.takeWhile Expr.isReferenceChar = [] := by
    rw [← String.toList_inj, String.toList_ofList, List.append_right_eq_self]
  refine ⟨_, _, nextToken_reference hread, hsame.trans hnone, fun heq => ?_⟩
  have happend := List.takeWhile_append_dropWhile (p := Expr.isReferenceChar) (l := rest)
  rwa [hsame.1 heq, List.nil_append] at happend

/-- A name with a gap, which is all of a quoted word and not of a bare one. -/
theorem references_agree_dish :
    (∃ rest', ∀ source, Expr.nextToken source '$' "a::b*2".toList =
      .ok (.operand (.variable "a::b"), rest')) ∧
    undivided endsBare "dish 2".toList = false ∧ undivided endsQuoted "dish 2".toList = true ∧
    IsVariableWord "\"$\x7bdish 2\x7d\"".toList "dish 2".toList := by
  have hquoted : undivided endsQuoted "dish 2".toList = true := by decide +kernel
  obtain ⟨hplain, hbraced⟩ := references_agree "a::b*2".toList "dish 2".toList
  obtain ⟨-, y, rest', hread, hsame, -⟩ :=
    hplain "*2".toList "a::b" (by decide) (by decide +kernel)
  rw [hsame.2 (by decide)] at hread
  exact ⟨⟨rest', hread⟩, by decide +kernel, hquoted,
    (hbraced (by decide) (by decide)).quotedWord hquoted⟩

/-- A gap divides a bare word, a semicolon may not stand in an expression, and a colon is part of a
name only in expressions, where it then is missing as an operator. -/
theorem references_differ :
    (readScript "set x $\x7ba b\x7d" "Console" 1).toOption.map
      (·.map fun c => c.words.map Word.text) = some [["set", "x", "$\x7ba", "b\x7d"]] ∧
      (Expr.parse "$\x7ba;b\x7d").toOption = none ∧
      Piece.reference? "a:$b".toList = some ("a", ":$b".toList) ∧
      Expr.splitReference? "a:$b".toList = some ("a:".toList, "$b".toList) ∧
      (Expr.parse "$c?$a:$b").toOption = none ∧
      (Expr.parse "$c ? $a : $b").toOption.isSome = true := by
  decide +kernel

end RadarTimeline.Console
