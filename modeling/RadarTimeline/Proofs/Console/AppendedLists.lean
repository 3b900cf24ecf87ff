import RadarTimeline.Proofs.Console.LoopBoundary
import RadarTimeline.Proofs.Expr.ValueText
import RadarTimeline.Proofs.Script.ListElements

namespace RadarTimeline.Script

variable {x y : String} {xs ys : List String}

theorem gapped_append (xs ys : List String) : gapped (xs ++ ys) = gapped xs ++ gapped ys :=
  List.flatMap_append

theorem elementText_ne_empty (x : String) : elementText x ≠ "" := by
  intro h
  rcases elementText_cases x with ⟨c, cs, hchars, -, -, hbare⟩ | hbraced
  · rw [← hbare, h] at hchars
    cases hchars
  · rw [h] at hbraced
    cases hbraced

theorem listText_eq_empty_iff : listText xs = "" ↔ xs = [] := by
  constructor
  · intro h
    cases xs with
    | nil => rfl
    | cons x xs =>
      have hchars := toList_listText_cons x xs
      rw [h] at hchars
      exact absurd (String.toList_eq_nil_iff.1 (List.append_eq_nil_iff.1 hchars.symm).1)
        (elementText_ne_empty x)
  · rintro rfl
    rfl

theorem listText_append (x y : String) (xs ys : List String) :
    listText (x :: xs ++ y :: ys) = listText (x :: xs) ++ " " ++ listText (y :: ys) := by
  rw [← String.toList_inj, List.cons_append, String.toList_append, String.toList_append,
    toList_listText_cons, toList_listText_cons, toList_listText_cons, gapped_append,
    gapped_cons y ys]
  simp

end RadarTimeline.Script

namespace RadarTimeline.Console

open Script

variable {call : Call} {name body text : String} {x : String} {xs ys values : List String}
    {st st₁ st' : State}

theorem appendList_listText (xs ys : List String) :
    appendList (listText xs) ys = listText (xs ++ ys) := by
  cases xs with
  | nil => rfl
  | cons x xs =>
    have hlist : listText (x :: xs) ≠ "" :=
      fun h => List.cons_ne_nil _ _ (listText_eq_empty_iff.1 h)
    cases ys with
    | nil =>
      rw [appendList, if_neg hlist, if_pos (listText_eq_empty_iff.2 rfl), List.append_nil]
    | cons y ys =>
      have hadded : listText (y :: ys) ≠ "" :=
        fun h => List.cons_ne_nil _ _ (listText_eq_empty_iff.1 h)
      rw [appendList, if_neg hlist, if_neg hadded, listText_append]

/-- An element can stand in a list: bare, or between braces that hold it. -/
def Listable (x : String) : Prop := elementText x = x ∨ BraceSafe x

theorem readList_listText (h : ∀ x ∈ xs, Listable x) : readList (listText xs) = .ok xs := by
  have hsafe : ∀ x ∈ xs, Braced x → BraceSafe x := fun x hx hbraced =>
    (h x hx).resolve_left fun hbare => not_braced_of_bare hbare hbraced
  rw [readList, listElements_listText, elements_gapped_iff.2 hsafe]
  rfl

def Call.visit (call : Call) (name body element : String) : Act Completion := do
  call.setVariable name element
  call.runScript body

/-- The outcome of a body that runs once for each element in order, until it ends the loop or
fails. -/
inductive Visits (call : Call) (name body : String) : List String → State →
    Outcome Completion → Prop
  | all (st : State) : Visits call name body [] st (.ok (.ok (.normal "")) st)
  | next {x : String} {xs : List String} {st st₁ : State} {b : Completion} {r : Outcome Completion}
    (h : (call.visit name body x).run st = .ok (.ok b) st₁) (hnext : b.loopEnd? = none)
    (hrest : Visits call name body xs st₁ r) : Visits call name body (x :: xs) st r
  | ended {x : String} {xs : List String} {st st₁ : State} {b c : Completion}
    (h : (call.visit name body x).run st = .ok (.ok b) st₁) (hend : b.loopEnd? = some c) :
    Visits call name body (x :: xs) st (.ok (.ok c) st₁)
  | failed {x : String} {xs : List String} {st : State} {r : Outcome Completion}
    (h : (call.visit name body x).Stops st r) : Visits call name body (x :: xs) st r

namespace Call

theorem foreachLoop_cons (call : Call) (name body x : String) (xs : List String) (n : Nat) :
    call.foreachLoop name body (n + 1) (x :: xs) = (do
      let b ← call.visit name body x
      match b.loopEnd? with
      | none => call.foreachLoop name body n xs
      | some c => return c) := by
  rw [foreachLoop, visit, bind_assoc]
  refine bind_congr fun _ => ?_
  rw [runBody, bind_assoc]
  refine bind_congr fun b => ?_
  cases b <;> rfl

theorem foreachLoop_of_visits {r : Outcome Completion} (h : Visits call name body xs st r) {n : Nat}
    (hn : xs.length ≤ n) : (call.foreachLoop name body n xs).run st = r := by
  induction h generalizing n with
  | all st =>
    rw [foreachLoop]
    rfl
  | next h hnext _ ih =>
    obtain ⟨n, rfl⟩ := Nat.exists_eq_add_of_le' (Nat.le_trans (Nat.le_add_left 1 _) hn)
    rw [foreachLoop_cons, Act.bind_of_ok h, hnext]
    exact ih (Nat.le_of_succ_le_succ hn)
  | ended h hend =>
    obtain ⟨n, rfl⟩ := Nat.exists_eq_add_of_le' (Nat.le_trans (Nat.le_add_left 1 _) hn)
    rw [foreachLoop_cons, Act.bind_of_ok h, hend]
    rfl
  | failed h =>
    obtain ⟨n, rfl⟩ := Nat.exists_eq_add_of_le' (Nat.le_trans (Nat.le_add_left 1 _) hn)
    rw [foreachLoop_cons]
    exact h.bind

end Call

theorem exists_visits (call : Call) (name body : String) (xs : List String) (st : State) :
    ∃ r, Visits call name body xs st r := by
  induction xs generalizing st with
  | nil => exact ⟨_, .all st⟩
  | cons x xs ih =>
    obtain ⟨b, st₁, h⟩ | ⟨r, h⟩ := (call.visit name body x).exists_run (β := Completion) st
    · cases hend : b.loopEnd? with
      | none =>
        obtain ⟨r, hrest⟩ := ih st₁
        exact ⟨r, .next h hend hrest⟩
      | some c => exact ⟨_, .ended h hend⟩
    · exact ⟨r, .failed h⟩

theorem foreachLoop_iff_visits {r : Outcome Completion} {n : Nat} (hn : xs.length ≤ n) :
    (call.foreachLoop name body n xs).run st = r ↔ Visits call name body xs st r := by
  refine ⟨fun h => ?_, fun h => Call.foreachLoop_of_visits h hn⟩
  obtain ⟨r', hr'⟩ := exists_visits call name body xs st
  rw [Call.foreachLoop_of_visits hr' hn] at h
  exact h ▸ hr'

theorem trim_toString (i : Nat) : Text.trim (toString i).toList = Number.digitChars i :=
  (Expr.trim_eq_self (Expr.toString_not_blank i)).trans Nat.toList_repr

theorem readIndex_toString (i length : Nat) : readIndex (toString i) length = return (i : Int) := by
  have hwhole : Number.readWhole? (Number.digitChars i) = some (i : Int) := by
    have h := Expr.readWhole?_toString i
    rwa [show (toString (i : Int)).toList = Number.digitChars i from Nat.toList_repr] at h
  obtain ⟨d, ds, hd⟩ := List.exists_cons_of_ne_nil (Number.digitChars_ne_nil i)
  have hdigit : d ≠ 'e' := by
    rintro rfl
    exact absurd (Number.digits_digitChars i 'e' (hd ▸ List.mem_cons_self)) (by decide)
  rw [readIndex, trim_toString]
  rw [hwhole, hd]
  split
  · next heq =>
    split at heq
    · next h => exact absurd (List.cons.inj h).1 hdigit
    · next h => exact absurd (List.cons.inj h).1 hdigit
    · cases heq
  · next heq =>
    cases heq
    rfl
  · next heq => cases heq

theorem readIndex_end (i length : Nat) :
    readIndex ("end-" ++ toString i) length = return (length : Int) - 1 - i := by
  have hchars : ("end-" ++ toString i).toList =
    'e' :: 'n' :: 'd' :: '-' :: Number.digitChars i := by
    rw [String.toList_append, show (toString i).toList = Number.digitChars i from Nat.toList_repr]
    rfl
  have hblank : ∀ c ∈ 'e' :: 'n' :: 'd' :: '-' :: Number.digitChars i, Text.isBlank c = false := by
    simp only [List.forall_mem_cons]
    exact ⟨by decide, by decide, by decide, by decide, Expr.digitChars_not_blank i⟩
  rw [readIndex, hchars, Expr.trim_eq_self hblank]
  simp only [Expr.readDigits?_digitChars]

theorem elementAt_natCast (xs : List String) (i : Nat) : elementAt xs i = xs[i]?.getD "" := rfl

theorem elementAt_back (xs : List String) (i : Nat) :
    elementAt xs ((xs.length : Int) - 1 - i) = xs.reverse[i]?.getD "" := by
  rcases Nat.lt_or_ge i xs.length with h | h
  · rw [show (xs.length : Int) - 1 - i = (xs.length - 1 - i : Nat) by omega, elementAt_natCast,
      List.getElem?_reverse h]
  · rw [show (xs.length : Int) - 1 - i = Int.negSucc (i - xs.length) by omega, elementAt,
      List.getElem?_eq_none (by simpa using h)]
    rfl

/-- What the commands that read a list find in a text. -/
structure ReadsAs (text : String) (xs : List String) : Prop where
  length : ∀ call st, (Builtin.llength.run call [text]).run st =
    .ok (.ok (.normal (toString xs.length))) st
  index : ∀ call st (i : Nat), (Builtin.lindex.run call [text, toString i]).run st =
    .ok (.ok (.normal (xs[i]?.getD ""))) st
  indexBack : ∀ call st (i : Nat), (Builtin.lindex.run call [text, "end-" ++ toString i]).run st =
    .ok (.ok (.normal (xs.reverse[i]?.getD ""))) st
  /-- A loop that may take as many turns visits each element in order. -/
  each : ∀ call name body st r, xs.length ≤ call.setup.limits.loopLimit.rounds →
    ((Builtin.foreach.run call [name, text, body]).run st = r ↔ Visits call name body xs st r)

theorem readsAs_of_readList (h : readList text = .ok xs) : ReadsAs text xs := by
  have hlist : ∀ st, (Call.listElements text).run st = .ok (.ok xs) st := fun st => by
    rw [Call.listElements, h]
    rfl
  have hindex : ∀ call index (i : Int), readIndex index xs.length = pure i → ∀ st,
      (Builtin.lindex.run call [text, index]).run st = .ok (.ok (.normal (elementAt xs i))) st := by
    intro call index i hread st
    refine (Act.bind_of_ok (hlist st)).trans ?_
    rw [hread]
    rfl
  refine ⟨fun call st => Act.bind_of_ok (hlist st), fun call st i => ?_, fun call st i => ?_, ?_⟩
  · exact hindex call _ i (readIndex_toString i _) st
  · rw [hindex call _ _ (readIndex_end i _) st, elementAt_back]
  · intro call name body st r hn
    rw [← foreachLoop_iff_visits hn]
    exact iff_of_eq (congrArg (· = r) (Act.bind_of_ok (hlist st)))

variable {scope : Nat} {batches : List (List String)}

/-- A variable is appended to by one command after the other. What happens between them leaves it
alone. -/
inductive Appends (scope : Nat) (name : String) : State → List (List String) → State → Prop
  | done (st : State) : Appends scope name st [] st
  | command {call : Call} {values : List String} {batches : List (List String)} {c : Completion}
    {st st₁ st₂ st' : State} (hcall : call.scope = scope)
    (happend : (Builtin.lappend.run call (name :: values)).run st = .ok (.ok c) st₁)
    (hkept : (st₂.scope scope).bindings.get? name = (st₁.scope scope).bindings.get? name)
    (hopen : scope < st₂.scopes.size) (hrest : Appends scope name st₂ batches st') :
    Appends scope name st (values :: batches) st'

theorem lappend_run (hs : call.scope < st.scopes.size)
    (hlist : ((st.scope call.scope).bindings.get? name).getD "" = listText xs)
    (values : List String) :
    ∃ st₁, (Builtin.lappend.run call (name :: values)).run st =
        .ok (.ok (.normal (listText (xs ++ values)))) st₁ ∧
      (st₁.scope call.scope).bindings.get? name = some (listText (xs ++ values)) := by
  have hnext : appendList (((st.scope call.scope).bindings.get? name).getD "") values =
    listText (xs ++ values) := by
    rw [hlist, appendList_listText]
  rw [← hnext]
  refine ⟨_, rfl, ?_⟩
  rw [State.scope_modifyScope _ _ hs]
  exact (Table.get?_set ..).trans (if_pos rfl)

theorem Appends.open (h : Appends scope name st batches st') (hs : scope < st.scopes.size) :
    scope < st'.scopes.size := by
  induction h with
  | done => exact hs
  | command _ _ _ hopen _ ih => exact ih hopen

theorem Appends.get?_eq (h : Appends scope name st batches st') (hs : scope < st.scopes.size)
    (hlist : ((st.scope scope).bindings.get? name).getD "" = listText xs) :
    (st'.scope scope).bindings.get? name =
      if batches = [] then (st.scope scope).bindings.get? name
      else some (listText (xs ++ batches.flatten)) := by
  induction h generalizing xs with
  | done => rw [if_pos rfl]
  | @command call values batches c st st₁ st₂ st' hcall happend hkept hopen _ ih =>
    subst hcall
    obtain ⟨st₁', hrun, hset⟩ := lappend_run hs hlist values
    rw [happend] at hrun
    cases hrun
    have hnext := hkept.trans hset
    rw [ih hopen (by rw [hnext]; rfl), hnext, if_neg (List.cons_ne_nil _ _), List.flatten_cons]
    split
    · next hnil => rw [hnil, List.flatten_nil, List.append_nil]
    · rw [List.append_assoc]

/-- A variable that is appended to is read as the list of all elements that were, in order, if it
was not set before and each element can stand in a list; and it can be appended to again. -/
theorem appended_lists_read (hs : scope < st.scopes.size)
    (hunset : (st.scope scope).bindings.get? name = none)
    (h : Appends scope name st batches st') (hvalues : ∀ x ∈ batches.flatten, Listable x) :
    (∃ text, (st'.scope scope).bindings.get? name = (if batches = [] then none else some text) ∧
      ReadsAs text batches.flatten) ∧
    ∀ (call : Call) values, call.scope = scope → ∃ text st₁,
      (Builtin.lappend.run call (name :: values)).run st' = .ok (.ok (.normal text)) st₁ ∧
        (st₁.scope scope).bindings.get? name = some text := by
  have hempty : ((st.scope scope).bindings.get? name).getD "" = listText [] := by
    rw [hunset]
    rfl
  have hget := h.get?_eq hs hempty
  rw [hunset, List.nil_append] at hget
  refine ⟨⟨_, hget, readsAs_of_readList (readList_listText hvalues)⟩, ?_⟩
  rintro call values rfl
  have hlist : ((st'.scope call.scope).bindings.get? name).getD "" = listText batches.flatten := by
    rw [hget]
    split
    · next hnil =>
      rw [hnil]
      rfl
    · rfl
  obtain ⟨st₁, hrun, hset⟩ := lappend_run (h.open hs) hlist values
  exact ⟨_, st₁, hrun, hset⟩

/-- The empty text, and one with blanks and braces, are elements like others. -/
theorem appended_lists_read_thrice :
    (0 < (State.initial .uhf "UHF").scopes.size ∧
      ((State.initial .uhf "UHF").scope 0).bindings.get? "v" = none ∧
        ∀ x ∈ ["a \x7bb\x7d", "", "x"], Listable x) ∧
      ∃ st' text, Appends 0 "v" (.initial .uhf "UHF") [["a \x7bb\x7d"], [], ["", "x"]] st' ∧
        (st'.scope 0).bindings.get? "v" = some text ∧ ReadsAs text ["a \x7bb\x7d", "", "x"] := by
  have hvalues : ∀ x ∈ ["a \x7bb\x7d", "", "x"], Listable x := by
    simp only [List.forall_mem_cons]
    exact ⟨.inr (by decide), .inr braceSafe_empty, .inl (by decide), by simp⟩
  have hcall : (consoleCall "lappend").scope = 0 := rfl
  have happends : ∃ st', Appends 0 "v" (.initial .uhf "UHF") [["a \x7bb\x7d"], [], ["", "x"]] st' :=
    ⟨_, .command hcall rfl rfl (by decide) <| .command hcall rfl rfl (by decide) <|
      .command hcall rfl rfl (by decide) (.done _)⟩
  obtain ⟨st', happends⟩ := happends
  obtain ⟨⟨text, hget, hreads⟩, -⟩ := appended_lists_read (by decide) rfl happends hvalues
  exact ⟨⟨by decide, rfl, hvalues⟩, st', text, happends, hget, hreads⟩

end RadarTimeline.Console
