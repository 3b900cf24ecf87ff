import RadarTimeline.Proofs.Console.Interpreter
import RadarTimeline.Proofs.Console.References
import RadarTimeline.Proofs.Console.TextEquality

namespace RadarTimeline.Console

open Script

/-- A stretch of a text that is replaced on its own. -/
inductive Fragment where
  | literal (c : Char)
  | escape (c : Char)
  /-- A line that is joined to the next one, and the indent of that. -/
  | joined (indent : List Char)
  | plain (name : List Char)
  | braced (name : List Char)
  | group (script : List Char)

/-- Names of variables that need no braces: runs of name characters with double colons between
them. -/
inductive IsName : List Char → Prop
  | single {cs : List Char} (hne : cs ≠ []) (h : ∀ c ∈ cs, Piece.isNameChar c = true) : IsName cs
  | qualified {cs more : List Char} (hne : cs ≠ []) (h : ∀ c ∈ cs, Piece.isNameChar c = true)
    (hmore : IsName more) : IsName (cs ++ ':' :: ':' :: more)

def extendsName : List Char → Bool
  | ':' :: ':' :: c :: _ => Piece.isNameChar c
  | c :: _ => Piece.isNameChar c
  | [] => false

def startsIndented : List Char → Bool
  | c :: _ => Piece.isIndent c
  | [] => false

namespace Fragment

/-- How a fragment is written. -/
def source : Fragment → List Char
  | .literal c => [c]
  | .escape c => ['\\', c]
  | .joined indent => '\\' :: '\n' :: indent
  | .plain name => '$' :: name
  | .braced name => Script.braced name
  | .group script => '[' :: (script ++ [']'])

def text (fs : List Fragment) : List Char := fs.flatMap source

/-- A fragment of its kind. A group ends with the bracket that closes its first one. -/
def Valid : Fragment → Prop
  | .literal c => c ≠ '\\' ∧ c ≠ '$' ∧ c ≠ '['
  | .escape c => c ≠ '\n' ∧ Piece.isCodeEscape c = false
  | .joined indent => ∀ c ∈ indent, Piece.isIndent c = true
  | .plain name => IsName name
  | .braced name => '}' ∉ name
  | .group script => bracketGroup? ('[' :: (script ++ [']'])) = some ('[' :: (script ++ [']']), [])

/-- No plain name has text after it that would be more of it. -/
def NamesEnd : List Fragment → Prop
  | [] => True
  | .plain _ :: fs => extendsName (text fs) = false ∧ NamesEnd fs
  | _ :: fs => NamesEnd fs

/-- Every joined line has all of the indent after it. -/
def JoinsEnd : List Fragment → Prop
  | [] => True
  | .joined _ :: fs => startsIndented (text fs) = false ∧ JoinsEnd fs
  | _ :: fs => JoinsEnd fs

/-- The piece that a fragment is cut to. -/
def piece : Fragment → Piece
  | .literal c => .literal c
  | .escape c => .literal (Piece.escaped c)
  | .joined _ => .literal ' '
  | .plain name | .braced name => .variable (String.ofList name)
  | .group script => .command (String.ofList script)

end Fragment

variable {cs rest name indent script : List Char} {c : Char}

theorem qualifiers_run (h : ∀ d ∈ c :: cs, Piece.isNameChar d = true)
    (hstop : ∀ d ∈ rest.head?, Piece.isNameChar d = false) :
    Piece.qualifiers (':' :: ':' :: (c :: cs ++ rest)) =
      (':' :: ':' :: c :: cs ++ (Piece.qualifiers rest).1, (Piece.qualifiers rest).2) := by
  obtain ⟨hc, hcs⟩ := List.forall_mem_cons.1 h
  rw [List.cons_append, Piece.qualifiers, if_pos hc, Expr.dropWhile_exact hcs hstop,
    Expr.takeWhile_exact hcs hstop]

theorem reference?_run (h : ∀ d ∈ c :: cs, Piece.isNameChar d = true)
    (hstop : ∀ d ∈ rest.head?, Piece.isNameChar d = false) :
    Piece.reference? (c :: cs ++ rest) =
      some (String.ofList (c :: cs ++ (Piece.qualifiers rest).1), (Piece.qualifiers rest).2) := by
  obtain ⟨hc, hcs⟩ := List.forall_mem_cons.1 h
  have hbrace : c ≠ '{' := by
    rintro rfl
    exact absurd hc (by decide)
  rw [List.cons_append, Piece.reference?, if_neg hbrace, if_pos hc, Expr.dropWhile_exact hcs hstop,
    Expr.takeWhile_exact hcs hstop]

/-- Text that does not extend a name ends its first run, and has no more parts of it. -/
theorem name_stops (h : extendsName rest = false) :
    (∀ d ∈ rest.head?, Piece.isNameChar d = false) ∧ Piece.qualifiers rest = ([], rest) := by
  constructor
  · intro d hd
    fun_cases extendsName rest with
    | case1 =>
      cases hd
      decide
    | case2 =>
      cases hd
      simpa [extendsName] using h
    | case3 => cases hd
  · fun_cases Piece.qualifiers rest with
    | case1 c cs hc => simp [extendsName, hc] at h
    | case2 => rfl
    | case3 => rfl

/-- A name begins with a run of name characters, and all of the rest of it is read behind that. -/
theorem IsName.exists_run (h : IsName name) : ∃ c cs more, name = c :: cs ++ more ∧
    (∀ d ∈ c :: cs, Piece.isNameChar d = true) ∧ ∀ rest, extendsName rest = false →
      (∀ d ∈ (more ++ rest).head?, Piece.isNameChar d = false) ∧
        Piece.qualifiers (more ++ rest) = (more, rest) := by
  induction h with
  | @single cs hne h =>
    obtain ⟨c, cs, rfl⟩ := List.exists_cons_of_ne_nil hne
    exact ⟨c, cs, [], (List.append_nil _).symm, h, fun _ hrest => name_stops hrest⟩
  | @qualified cs more hne h _ ih =>
    obtain ⟨c, cs, rfl⟩ := List.exists_cons_of_ne_nil hne
    obtain ⟨d, ds, tail, rfl, hds, hends⟩ := ih
    refine ⟨c, cs, _, rfl, h, fun rest hrest => ?_⟩
    obtain ⟨hstop, hread⟩ := hends rest hrest
    constructor
    · rintro e ⟨⟩
      decide
    · have hrun := qualifiers_run hds hstop
      rw [hread] at hrun
      simpa using hrun

theorem reference?_plain (h : IsName name) (hrest : extendsName rest = false) :
    Piece.reference? (name ++ rest) = some (String.ofList name, rest) := by
  obtain ⟨c, cs, more, rfl, hrun, hends⟩ := h.exists_run
  obtain ⟨hstop, hread⟩ := hends rest hrest
  rw [List.append_assoc, reference?_run hrun hstop, hread]

namespace Piece

theorem ofChars_literal (h : c ≠ '\\' ∧ c ≠ '$' ∧ c ≠ '[') (cs : List Char) :
    ofChars (c :: cs) = .literal c :: ofChars cs := by
  obtain ⟨hescape, hdollar, hbracket⟩ := h
  rw [ofChars, if_neg hdollar, if_neg hbracket]
  all_goals simp [hescape]

theorem ofChars_escape (hc : c ≠ '\n') (hcode : isCodeEscape c = false) (cs : List Char) :
    ofChars ('\\' :: c :: cs) = .literal (escaped c) :: ofChars cs := by
  rw [ofChars, if_neg (by simp [hcode])]
  simp [hc]

theorem ofChars_joined (h : ∀ d ∈ indent, isIndent d = true) (hrest : startsIndented rest = false) :
    ofChars ('\\' :: '\n' :: (indent ++ rest)) = .literal ' ' :: ofChars rest := by
  have hstop : ∀ d ∈ rest.head?, isIndent d = false := by
    intro d hd
    cases rest with
    | nil => cases hd
    | cons =>
      cases hd
      exact hrest
  rw [ofChars, Expr.dropWhile_exact h hstop]

theorem ofChars_group
    (h : bracketGroup? ('[' :: (script ++ [']'])) = some ('[' :: (script ++ [']']), []))
    (rest : List Char) :
    ofChars ('[' :: (script ++ [']']) ++ rest) = .command (String.ofList script) ::
      ofChars rest := by
  have hgroup : bracketGroup? ('[' :: (script ++ [']'] ++ rest)) =
    some ('[' :: (script ++ [']']), rest) :=
    Expr.closeBracket?_append_right h rest
  have hinside : inside ('[' :: (script ++ [']'])) = script := by simp [inside]
  rw [List.cons_append, ofChars, if_neg (by decide), if_pos rfl]
  · split
    · next heq =>
      rw [hgroup] at heq
      cases heq
      rw [hinside]
    · next heq =>
      rw [hgroup] at heq
      cases heq
  all_goals simp

end Piece

namespace Fragment

/-- A text is cut where its fragments begin. -/
theorem ofChars_text {fs : List Fragment} (h : ∀ f ∈ fs, f.Valid) (hnames : NamesEnd fs)
    (hjoins : JoinsEnd fs) :
    Piece.ofChars (text fs) = fs.map piece := by
  induction fs with
  | nil => rw [text, List.flatMap_nil, Piece.ofChars, List.map_nil]
  | cons f fs ih =>
    obtain ⟨hf, hfs⟩ := List.forall_mem_cons.1 h
    rw [text, List.flatMap_cons, ← text, List.map_cons]
    cases f with
    | literal c =>
      rw [← ih hfs hnames hjoins]
      exact Piece.ofChars_literal hf _
    | escape c =>
      rw [← ih hfs hnames hjoins]
      exact Piece.ofChars_escape hf.1 hf.2 _
    | joined indent =>
      rw [← ih hfs hnames hjoins.2]
      exact Piece.ofChars_joined hf hjoins.1
    | plain name =>
      rw [← ih hfs hnames.2 hjoins]
      exact ofChars_reference (reference?_plain hf hnames.1)
    | braced name =>
      rw [← ih hfs hnames hjoins]
      exact ofChars_braced hf _
    | group script =>
      rw [← ih hfs hnames hjoins]
      exact Piece.ofChars_group hf _

end Fragment

variable {α β : Type} {R : α → State → β → State → Prop} {st st' : State}

/-- One value each for the elements of a list, and every one in the state that those before it
leave. -/
inductive InTurn (R : α → State → β → State → Prop) : List α → State → List β → State → Prop
  | nil {st : State} : InTurn R [] st [] st
  | cons {a : α} {as : List α} {b : β} {bs : List β} {st st₁ st' : State} (h : R a st b st₁)
    (hrest : InTurn R as st₁ bs st') : InTurn R (a :: as) st (b :: bs) st'

theorem InTurn.mapM {f : α → Run β} {as : List α} {bs : List β} (h : InTurn R as st bs st')
    (hf : ∀ {a st b st'}, R a st b st' → f a st = .ok b st') : as.mapM f st = .ok bs st' := by
  induction h with
  | nil => rfl
  | cons ha _ ih =>
    rw [List.mapM_cons]
    exact (Run.bind_of_ok (hf ha)).trans (Run.bind_of_ok ih)

theorem InTurn.map {γ : Type} {g : α → γ} {S : γ → State → β → State → Prop} {as : List α}
    {bs : List β}
    (h : InTurn R as st bs st') (hS : ∀ {a st b st'}, R a st b st' → S (g a) st b st') :
    InTurn S (as.map g) st bs st' := by
  induction h with
  | nil => exact .nil
  | cons ha _ ih => exact .cons (hS ha) ih

variable {run : Runner} {scope : Nat} {location : Location} {value : String}

/-- A script between brackets has a value if it completes with one. -/
inductive ScriptYields (run : Runner) (scope : Nat) (location : Location) (script : String)
    (st : State) (value : String) (st' : State) : Prop
  | normal (h : run scope script location.filename location.line st = .ok (.normal value) st')
  | returned (h : run scope script location.filename location.line st = .ok (.returned value) st')

/-- The value of a fragment in a state, and the state that is left. Only a script changes it. -/
inductive Fragment.Yields (run : Runner) (scope : Nat) (location : Location) :
    Fragment → State → String → State → Prop
  | literal {c : Char} {st : State} : Yields run scope location (.literal c) st c.toString st
  | escape {c : Char} {st : State} :
    Yields run scope location (.escape c) st (Piece.escaped c).toString st
  | joined {indent : List Char} {st : State} : Yields run scope location (.joined indent) st " " st
  | plain {name : List Char} {value : String} {st : State}
    (h : (st.scope scope).bindings.get? (String.ofList name) = some value) :
    Yields run scope location (.plain name) st value st
  | braced {name : List Char} {value : String} {st : State}
    (h : (st.scope scope).bindings.get? (String.ofList name) = some value) :
    Yields run scope location (.braced name) st value st
  | group {script : List Char} {value : String} {st st' : State}
    (h : ScriptYields run scope location (String.ofList script) st value st') :
    Yields run scope location (.group script) st value st'

theorem variableValue_run {name : String} (h : (st.scope scope).bindings.get? name = some value)
    (location : Location) : variableValue scope name location st = .ok value st := by
  refine (Run.bind_of_ok (rfl : Run.scope scope st = .ok (st.scope scope) st)).trans ?_
  rw [h]
  rfl

theorem ScriptYields.run_eq {script : String}
    (h : ScriptYields run scope location script st value st') :
    bracketValue run scope script location st = .ok value st' := by
  rw [bracketValue]
  cases h with
  | normal h => exact (Run.bind_of_ok (Run.mapFault_ok_iff.2 h)).trans rfl
  | returned h => exact (Run.bind_of_ok (Run.mapFault_ok_iff.2 h)).trans rfl

theorem Fragment.Yields.run_eq {f : Fragment} (h : f.Yields run scope location st value st') :
    f.piece.value run scope location st = .ok value st' := by
  cases h with
  | literal | escape | joined => rfl
  | plain h => exact variableValue_run h location
  | braced h => exact variableValue_run h location
  | group h => exact h.run_eq

theorem substitute_fragments {fs : List Fragment} {values : List String} (h : ∀ f ∈ fs, f.Valid)
    (hnames : Fragment.NamesEnd fs) (hjoins : Fragment.JoinsEnd fs)
    (hvalues : InTurn (Fragment.Yields run scope location) fs st values st') :
    substitute run scope (String.ofList (Fragment.text fs)) location st =
      .ok (String.join values) st' := by
  rw [substitute, String.toList_ofList, Fragment.ofChars_text h hnames hjoins]
  have hpieces : InTurn (fun p st b st' => Piece.value run scope location p st = .ok b st')
    (fs.map Fragment.piece) st values st' := hvalues.map Fragment.Yields.run_eq
  exact Run.bind_of_ok (hpieces.mapM id)

/-- The value of a word in a state, and the state that is left. -/
inductive WordYields (run : Runner) (scope : Nat) (c : Command) (w : Word) (st : State) :
    String → State → Prop
  | braced (hkind : w.kind = .braced) : WordYields run scope c w st w.text st
  | bracketed {value : String} {st' : State} (hkind : w.kind = .bracketed)
    (h : ScriptYields run scope (c.wordLocation w) w.text st value st') :
    WordYields run scope c w st value st'
  | fragments {fs : List Fragment} {values : List String} {st' : State}
    (hkind : w.kind = .bare ∨ w.kind = .quoted) (htext : w.text = String.ofList (Fragment.text fs))
    (h : ∀ f ∈ fs, f.Valid) (hnames : Fragment.NamesEnd fs) (hjoins : Fragment.JoinsEnd fs)
    (hvalues : InTurn (Fragment.Yields run scope (c.wordLocation w)) fs st values st') :
    WordYields run scope c w st (String.join values) st'

theorem WordYields.run_eq {c : Command} {w : Word} (h : WordYields run scope c w st value st') :
    wordValue run scope c w st = .ok value st' := by
  rw [wordValue]
  cases h with
  | braced hkind =>
    rw [hkind]
    rfl
  | bracketed hkind h =>
    rw [hkind]
    exact h.run_eq
  | fragments hkind htext h hnames hjoins hvalues =>
    have hrun := substitute_fragments h hnames hjoins hvalues
    rw [← htext] at hrun
    rcases hkind with hkind | hkind <;> rw [hkind] <;> exact hrun

/-- A text put together from fragments is replaced by their values put together, one after the other
and each once, if its names end where their fragments do and a joined line has all of the indent
after it. A command has as many words as its source, whatever their values hold. -/
theorem fragments_replaced_once (setup : Setup) (run : Runner) (scope : Nat) :
    (∀ fs location st values st', (∀ f ∈ fs, f.Valid) → Fragment.NamesEnd fs →
      Fragment.JoinsEnd fs →
      InTurn (Fragment.Yields run scope location) fs st values st' →
      substitute run scope (String.ofList (Fragment.text fs)) location st =
        .ok (String.join values) st') ∧
    ∀ c st name args st', InTurn (WordYields run scope c) c.words st (name :: args) st' →
      carryOut setup run scope c st = perform setup run scope c name args st' := by
  refine ⟨fun fs location st values st' => substitute_fragments, fun c st name args st' h => ?_⟩
  rw [carryOut_eq]
  cases h with
  | cons hhead hargs =>
    exact (Run.bind_of_ok hhead.run_eq).trans (Run.bind_of_ok (hargs.mapM WordYields.run_eq))

/-- The console with a variable that is read, and one whose value is a command and a reference. -/
def activeValues : State := twoVariables "[missing] $y" "\x7b"

/-- Runs scripts that hold no others. -/
def flatRunner : Runner := runNested ⟨.empty, {}, "eros", "tcl"⟩ 1

def everyFragment : List Fragment :=
  [.literal 'a', .escape 't', .plain ['x'], .literal ' ', .braced ['y'], .group "set x".toList,
    .joined [' ']]

def everyCommand : Command :=
  ⟨consoleName, ⟨.braced, "list", 1, 1, 6⟩,
    [⟨.bare, String.ofList (Fragment.text everyFragment), 1, 8, 30⟩]⟩

theorem everyFragment_replaced : ∃ st',
    (∀ f ∈ everyFragment, f.Valid) ∧ Fragment.NamesEnd everyFragment ∧
    Fragment.JoinsEnd everyFragment ∧
      InTurn (WordYields flatRunner 0 everyCommand) everyCommand.words activeValues
        ["list", "a\t[missing] $y \x7b[missing] $y "] st' ∧
      substitute flatRunner 0 (String.ofList (Fragment.text everyFragment))
          (everyCommand.wordLocation everyCommand.last) activeValues =
        .ok "a\t[missing] $y \x7b[missing] $y " st' ∧
      carryOut ⟨.empty, {}, "eros", "tcl"⟩ flatRunner 0 everyCommand activeValues =
        perform ⟨.empty, {}, "eros", "tcl"⟩ flatRunner 0 everyCommand "list"
          ["a\t[missing] $y \x7b[missing] $y "] st' := by
  have hset : Run.value? (flatRunner 0 "set x" consoleName 1 activeValues) =
    some (.normal "[missing] $y") := by
    decide +kernel
  obtain ⟨st', hset⟩ := Run.exists_of_value? hset
  have hname : IsName ['x'] := .single (by decide) (List.forall_mem_singleton.2 (by decide))
  have hvalid : ∀ f ∈ everyFragment, f.Valid := by
    simp only [everyFragment, List.forall_mem_cons, Fragment.Valid]
    exact ⟨by decide, by decide, hname, by decide, by decide, by decide, ⟨rfl, by simp⟩, by simp⟩
  have hnames : Fragment.NamesEnd everyFragment := ⟨by decide, trivial⟩
  have hjoins : Fragment.JoinsEnd everyFragment := ⟨by decide, trivial⟩
  have hvalues : InTurn (Fragment.Yields flatRunner 0 (everyCommand.wordLocation everyCommand.last))
    everyFragment
      activeValues ["a", "\t", "[missing] $y", " ", "\x7b", "[missing] $y", " "] st' :=
    .cons .literal <| .cons .escape <| .cons (.plain rfl) <| .cons .literal <|
    .cons (.braced rfl) <|
      .cons (.group (.normal hset)) <| .cons .joined .nil
  have hwords : InTurn (WordYields flatRunner 0 everyCommand) everyCommand.words activeValues
      ["list", "a\t[missing] $y \x7b[missing] $y "] st' :=
    .cons (.braced rfl) <| .cons (.fragments (.inl rfl) rfl hvalid hnames hjoins hvalues) .nil
  have honce := fragments_replaced_once ⟨.empty, {}, "eros", "tcl"⟩ flatRunner 0
  exact ⟨st', hvalid, hnames, hjoins, hwords, honce.1 _ _ _ _ _ hvalid hnames hjoins hvalues,
    honce.2 _ _ _ _ _ hwords⟩

/-- A space after a joined line is not replaced on its own: it belongs to the line. -/
theorem joined_takes_indent :
    ¬∀ (run : Runner) (scope : Nat) fs location st values st', (∀ f ∈ fs, f.Valid) →
    Fragment.NamesEnd fs →
      InTurn (Fragment.Yields run scope location) fs st values st' →
      substitute run scope (String.ofList (Fragment.text fs)) location st =
        .ok (String.join values) st' := by
  intro h
  have hcut : InTurn (Fragment.Yields flatRunner 0 (everyCommand.wordLocation everyCommand.last))
      [.joined [], .literal ' ', .literal 'x'] activeValues [" ", " ", "x"] activeValues :=
    .cons .joined <| .cons .literal <| .cons .literal .nil
  have hwhole : InTurn (Fragment.Yields flatRunner 0 (everyCommand.wordLocation everyCommand.last))
      [.joined [' '], .literal 'x'] activeValues [" ", "x"] activeValues :=
    .cons .joined <| .cons .literal .nil
  have hcutValid : ∀ f ∈ [Fragment.joined [], .literal ' ', .literal 'x'], f.Valid := by
    simp only [List.forall_mem_cons, Fragment.Valid]
    exact ⟨by simp, by decide, by decide, by simp⟩
  have hwholeValid : ∀ f ∈ [Fragment.joined [' '], .literal 'x'], f.Valid := by
    simp only [List.forall_mem_cons, Fragment.Valid]
    exact ⟨⟨rfl, by simp⟩, by decide, by simp⟩
  have htwo := h _ _ _ _ _ _ _ hcutValid trivial hcut
  have hone := substitute_fragments hwholeValid trivial ⟨by decide, trivial⟩ hwhole
  cases htwo.symm.trans hone

end RadarTimeline.Console
